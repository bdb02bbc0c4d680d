import StyleFlip.Proofs.Layout

/-!
Reading and writing a stylesheet. The segments of a text join to it again, every fragment of a segment stands in some
field of its node, and a statement without a semicolon is always the last of its block, so that no semicolon is put in
when it is written. Together: a sheet that was read is written as the text it was read from.
-/
namespace StyleFlip

/-! ## Segments -/

namespace Segment

/-- The text of a segment with the spacing before it. -/
def text (segment : Segment) : Text := segment.before ++ segment.shape.text

/-- Whether a row of segments starts where a block ends. -/
def endsBlock : List Segment → Bool
  | [] => true
  | segment :: _ => segment.shape == .closing

/-- A statement without a semicolon stands at the end of its block. -/
def Separated : List Segment → Prop
  | [] => True
  | segment :: rest =>
    (∀ header, segment.shape = .statement header false → endsBlock rest = true) ∧ Separated rest

/-- A header ends at the end of the text or before a character that ends headers. -/
theorem readHeader_following {mode : Mode} {depth offset : Nat} {text header following : Text}
    (read : readHeader mode depth offset text = .ok (header, following)) :
    following = [] ∨ ∃ c rest, following = c :: rest ∧ endsHeader c = true := by
  fun_induction readHeader mode depth offset text generalizing header with
  | case1 => cases read; exact .inl rfl
  | case2 | case3 | case4 => cases read
  | case10 depth _ c rest _ stops =>
    cases read
    exact .inr ⟨c, rest, rfl, (Bool.and_eq_true_iff.mp stops).2⟩
  | case5 | case6 | case7 | case8 | case9 | case11 =>
    rename_i ih
    obtain ⟨rest, inner, rfl⟩ := map_keep_eq_ok read
    exact ih inner

theorem stepAt_stop_spacing {before text trailing : Text} {start : Nat}
    (stopped : stepAt before start text = .stop (.spacing trailing)) : text = [] ∧ trailing = before := by
  unfold stepAt at stopped
  split at stopped
  · cases stopped
    exact ⟨rfl, rfl⟩
  · cases stopped
  · split at stopped <;> cases stopped
  · split at stopped <;> cases stopped

theorem step_stop_spacing {offset : Nat} {text trailing : Text} (stopped : step offset text = .stop (.spacing trailing)) :
    trailing = text := by
  obtain ⟨empty, rfl⟩ := stepAt_stop_spacing stopped
  have whole := List.takeWhile_append_dropWhile (p := isSpacing) (l := text)
  rwa [empty, List.append_nil] at whole

/-- The segments of a text and the spacing at its end join to it again. -/
theorem flatMap_text_cutFrom {offset : Nat} {text trailing : Text} {segments : List Segment}
    (cut : cutFrom offset text = (segments, .spacing trailing)) : segments.flatMap Segment.text ++ trailing = text := by
  fun_induction cutFrom offset text generalizing segments with
  | case1 offset text ending stopped =>
    cases cut
    simpa using step_stop_spacing stopped
  | case2 offset text segment following taken others ending later ih =>
    cases cut
    rw [List.flatMap_cons, List.append_assoc, ih later, step_eq_segment taken, Segment.text]

/-- Behind a statement without a semicolon the text ends, or a block does: a header that stops at an opening brace or a
semicolon gives another shape. -/
theorem following_of_bare {before text following header : Text} {start : Nat} {segment : Segment}
    (taken : stepAt before start text = .segment segment following) (bare : segment.shape = .statement header false) :
    following = [] ∨ ∃ rest, following = '}' :: rest := by
  unfold stepAt at taken
  split at taken
  · cases taken
  · cases taken; cases bare
  · split at taken <;> cases taken
    cases bare
  · split at taken
    · cases taken
    · cases taken; cases bare
    · cases taken; cases bare
    · rename_i header following notOpening notEnding read
      cases taken
      rcases readHeader_following read with rfl | ⟨c, rest, rfl, ends⟩
      · exact .inl rfl
      · right
        simp only [endsHeader, Bool.or_eq_true, beq_iff_eq] at ends
        rcases ends with (rfl | rfl) | rfl
        · exact absurd rfl (notOpening rest)
        · exact absurd rfl (notEnding rest)
        · exact ⟨rest, rfl⟩

/-- After a statement without a semicolon the next segment closes the block, or there is none. -/
theorem endsBlock_cutFrom (offset : Nat) {before text following header : Text} {start : Nat} {segment : Segment}
    (taken : stepAt before start text = .segment segment following)
    (bare : segment.shape = .statement header false) : endsBlock (cutFrom offset following).1 = true := by
  rcases following_of_bare taken bare with rfl | ⟨rest, rfl⟩
  · rw [cutFrom]
    rfl
  · have brace : isSpacing '}' = false := by decide
    have next : step offset ('}' :: rest) = .segment ⟨[], offset + Text.byteCount [], .closing⟩ rest := by
      rw [step, List.takeWhile_cons_of_neg (by simp [brace]), List.dropWhile_cons_of_neg (by simp [brace])]
      rfl
    rw [cutFrom]
    split
    · rfl
    · rename_i taken
      rw [next] at taken
      cases taken
      rfl

theorem separated_cutFrom (offset : Nat) (text : Text) : Separated (cutFrom offset text).1 := by
  fun_induction cutFrom offset text with
  | case1 => trivial
  | case2 offset text segment following taken others ending later ih =>
    rw [later] at ih
    refine ⟨?_, ih⟩
    intro header bare
    have last := endsBlock_cutFrom (segment.start + Text.byteCount segment.shape.text) taken bare
    rwa [later] at last

end Segment

/-! ## Items -/

namespace Item

/-- Whether an item is written the same wherever it stands in its block: it has a block or a semicolon of its own, or
is a comment. -/
def ends : Item → Bool
  | .node (.atRule _ _ false) spacing _ => spacing.semicolon
  | .node (.declaration _) spacing _ => spacing.semicolon
  | _ => true

theorem render_of_ends {item : Item} (own : item.ends = true) (last : Bool) : item.render last = item.render true := by
  obtain ⟨content, spacing, children⟩ := item
  cases content with
  | atRule name params hasBlock => cases hasBlock <;> simp_all [ends, render]
  | _ => simp_all [ends, render]

theorem renderAll_concat {items : List Item} (own : ∀ item ∈ items, item.ends = true) (item : Item) :
    renderAll (items ++ [item]) = renderAll items ++ item.render true := by
  induction items with
  | nil => simp [renderAll]
  | cons first rest ih =>
    have here := own first List.mem_cons_self
    simp only [List.cons_append, renderAll, List.append_assoc]
    rw [ih fun item member => own item (List.mem_cons_of_mem _ member), render_of_ends here rest.isEmpty,
      render_of_ends here]

end Item

/-! ## Headers -/

namespace Sheet
open Item

theorem cutLastBang?_eq_some {inside : Bool} {text before marker : Text}
    (found : cutLastBang? inside text = some (before, marker)) : text = before ++ '!' :: marker := by
  fun_induction cutLastBang? inside text generalizing before with
  | case1 => cases found
  | case2 rest ih | case3 rest ih =>
    obtain ⟨⟨inner, last⟩, later, equal⟩ := Option.map_eq_some_iff.mp found
    cases equal
    simp [ih later]
  | case4 inside c rest _ _ result later ih =>
    cases found
    simp [ih later]
  | case5 inside c rest _ _ none bang ih =>
    cases found
    simp only [Bool.and_eq_true, beq_iff_eq] at bang
    simp [bang.2]
  | case6 => cases found

/-- A value and its importance marker are the whole body. -/
theorem valueAndMarker_append (body : Text) :
    (valueAndMarker body).1 ++ (valueAndMarker body).2.getD [] = body := by
  unfold valueAndMarker
  split
  · simp
  · rename_i before marker found
    split
    · rw [cutLastBang?_eq_some found]
      simp only [Option.getD_some]
      rw [← List.append_assoc, Text.trimEnd_append_blankTail]
    · simp

/-- The text of a declaration and the blanks after it are the header that it was read from. -/
theorem text_declarationOf? {header after : Text} {decl : Declaration}
    (found : declarationOf? header = some (decl, after)) : decl.text ++ after = header := by
  unfold declarationOf? at found
  split at found
  · cases found
  · rename_i name following split
    simp only [Option.some.injEq, Prod.mk.injEq] at found
    obtain ⟨rfl, rfl⟩ := found
    have value := valueAndMarker_append (Text.trimEnd (Text.trimStart following))
    simp only [Declaration.text, Declaration.property_withWritten, Declaration.between_withWritten,
      Declaration.written_withWritten, Declaration.important_withWritten, List.append_assoc]
    rw [← List.append_assoc (valueAndMarker _).1, value, Text.trimEnd_append_blankTail, Text.cut?_eq_some split]
    simp only [List.cons_append, Text.blankHead_append_trimStart]
    rw [← List.append_assoc, Text.trimEnd_append_blankTail]
    simp

theorem atRuleOf_fragments (before body : Text) (hasBlock semicolon : Bool) :
    ∃ name params between afterName, atRuleOf before body hasBlock semicolon =
        (.atRule name params hasBlock, { before, between, afterName, semicolon }) ∧
      name ++ afterName ++ params ++ between = body := by
  refine ⟨_, _, _, _, rfl, ?_⟩
  rw [List.append_assoc, Text.trimEnd_append_blankTail, List.append_assoc, Text.blankHead_append_trimStart,
    List.takeWhile_append_dropWhile]

/-- A statement is written as it was read. -/
theorem render_statementOf? {before header : Text} {semicolon : Bool} {content : Content} {spacing : Spacing}
    (found : statementOf? before header semicolon = some (content, spacing)) :
    (Item.node content spacing []).render true = before ++ header ++ (if semicolon then [';'] else []) ∧
      (Item.node content spacing []).ends = semicolon := by
  unfold statementOf? at found
  split at found
  · rename_i body
    obtain ⟨name, params, between, afterName, fields, whole⟩ := atRuleOf_fragments before body false semicolon
    rw [fields] at found
    cases found
    subst whole
    cases semicolon <;> simp [render, ends]
  · obtain ⟨⟨decl, after⟩, read, equal⟩ := Option.map_eq_some_iff.mp found
    cases equal
    rw [← text_declarationOf? read]
    cases semicolon <;> simp [render, ends]

/-- What is written for a block before its items, whatever the block holds in the end. -/
def Frame.Opens (frame : Frame) (head : Text) : Prop :=
  ∀ (after : Text) (children : List Item),
    (Item.node frame.content { frame.spacing with after } children).render true =
        head ++ renderAll children ++ after ++ ['}'] ∧
      (Item.node frame.content { frame.spacing with after } children).ends = true

theorem opens_blockOf (before header : Text) (start : Nat) (earlier : List Item) :
    Frame.Opens ⟨(blockOf before header).1, (blockOf before header).2, start, earlier⟩ (before ++ header ++ ['{']) := by
  intro after children
  unfold blockOf
  split
  · rename_i body
    obtain ⟨name, params, between, afterName, fields, whole⟩ := atRuleOf_fragments before body true false
    rw [fields, ← whole]
    simp [render, ends]
  · simp only [render, ends, and_true]
    rw [List.append_assoc before, Text.trimEnd_append_blankTail]
    simp

/-! ## Assembling -/

/-- The text from which open blocks and finished items were read. -/
inductive ReadFrom : List Frame → List Item → Text → Prop where
  | top (done : List Item) : ReadFrom [] done (renderAll done.reverse)
  | block {frame : Frame} {outer : List Frame} {before head : Text} (done : List Item)
      (around : ReadFrom outer frame.earlier before) (own : ∀ item ∈ frame.earlier, item.ends = true)
      (opens : frame.Opens head) : ReadFrom (frame :: outer) done (before ++ head ++ renderAll done.reverse)

theorem ReadFrom.push {frames : List Frame} {done : List Item} {text : Text} (read : ReadFrom frames done text)
    (own : ∀ item ∈ done, item.ends = true) (item : Item) : ReadFrom frames (item :: done) (text ++ item.render true) := by
  have joined : renderAll (item :: done).reverse = renderAll done.reverse ++ item.render true := by
    rw [List.reverse_cons, renderAll_concat]
    intro other member
    exact own other (List.mem_reverse.mp member)
  cases read with
  | top =>
    rw [← joined]
    exact .top _
  | block _ around ownAround opens =>
    rw [List.append_assoc, ← joined]
    exact .block _ around ownAround opens

theorem ReadFrom.close {frame : Frame} {outer : List Frame} {done : List Item} {text : Text}
    (read : ReadFrom (frame :: outer) done text) (after : Text) :
    ReadFrom outer (.node frame.content { frame.spacing with after } done.reverse :: frame.earlier)
        (text ++ after ++ ['}']) ∧
      ∀ item ∈ Item.node frame.content { frame.spacing with after } done.reverse :: frame.earlier, item.ends = true := by
  cases read with
  | @block _ _ before head _ around own opens =>
    obtain ⟨written, ended⟩ := opens after done.reverse
    have pushed := around.push own (.node frame.content { frame.spacing with after } done.reverse)
    rw [written] at pushed
    refine ⟨by simpa [List.append_assoc] using pushed, ?_⟩
    intro item member
    rcases List.mem_cons.mp member with rfl | earlier
    · exact ended
    · exact own item earlier

/-- Items are written as the text from which they were assembled. The latest item alone may lack a semicolon, and only
where its block ends. -/
theorem renderAll_assemble {segments : List Segment} {frames : List Frame} {done items : List Item}
    {text trailing : Text} {ending : Ending} (read : ReadFrom frames done text) (separated : Segment.Separated segments)
    (own : (∀ item ∈ done, item.ends = true) ∨ Segment.endsBlock segments = true)
    (assembled : assemble frames done segments ending = .ok (items, trailing)) :
    ∃ ended, ending = .spacing ended ∧ renderAll items ++ trailing = text ++ segments.flatMap Segment.text ++ ended := by
  -- Along the segments, `text` is what the open blocks and the finished items were read from.
  induction segments generalizing frames done text with
  | nil =>
    cases ending with
    | fault => cases assembled
    | spacing ended =>
      cases read with
      | top =>
        cases assembled
        exact ⟨trailing, rfl, by simp⟩
      | block => cases assembled
  | cons segment rest ih =>
    obtain ⟨bare, separated⟩ := separated
    cases shape : segment.shape with
    | comment body =>
      simp only [assemble, shape] at assembled
      have all : ∀ item ∈ done, item.ends = true := own.resolve_right (by simp [Segment.endsBlock, shape])
      have pushed := read.push all (.node (.comment body) { before := segment.before } [])
      obtain ⟨ended, rfl, joined⟩ := ih pushed separated (.inl (List.forall_mem_cons.mpr ⟨rfl, all⟩)) assembled
      exact ⟨ended, rfl, by simp [joined, render, Segment.text, shape, Shape.text]⟩
    | closing =>
      simp only [assemble, shape] at assembled
      cases frames with
      | nil => cases assembled
      | cons frame outer =>
        obtain ⟨closed, all⟩ := read.close segment.before
        obtain ⟨ended, rfl, joined⟩ := ih closed separated (.inl all) assembled
        exact ⟨ended, rfl, by simp [joined, Segment.text, shape, Shape.text]⟩
    | opening header =>
      simp only [assemble, shape] at assembled
      have all : ∀ item ∈ done, item.ends = true := own.resolve_right (by simp [Segment.endsBlock, shape])
      have opened := opens_blockOf segment.before header (segment.start + Text.byteCount header) done
      have inner := ReadFrom.block [] read all opened
      obtain ⟨ended, rfl, joined⟩ := ih inner separated (.inl (by simp)) assembled
      exact ⟨ended, rfl, by simp [joined, renderAll, Segment.text, shape, Shape.text]⟩
    | statement header semicolon =>
      simp only [assemble, shape] at assembled
      have all : ∀ item ∈ done, item.ends = true := own.resolve_right (by simp [Segment.endsBlock, shape])
      split at assembled
      · cases assembled
      · rename_i content spacing found
        obtain ⟨written, ended⟩ := render_statementOf? found
        have pushed := read.push all (.node content spacing [])
        rw [written] at pushed
        -- Without a semicolon the statement is the last of its block, and no item is pushed onto it.
        have next : (∀ item ∈ Item.node content spacing [] :: done, item.ends = true) ∨ Segment.endsBlock rest = true := by
          cases semicolon with
          | true => exact .inl (List.forall_mem_cons.mpr ⟨ended, all⟩)
          | false => exact .inr (bare header shape)
        obtain ⟨ended, rfl, joined⟩ := ih pushed separated next assembled
        exact ⟨ended, rfl, by simp [joined, Segment.text, shape, Shape.text]⟩

/-- The items of a text and the spacing at its end are written as the text. -/
theorem renderAll_parseItems {text trailing : Text} {items : List Item}
    (parsed : parseItems text = .ok (items, trailing)) : renderAll items ++ trailing = text := by
  have separated := Segment.separated_cutFrom 0 text
  obtain ⟨ended, isSpacing, joined⟩ := renderAll_assemble (.top []) separated (.inl (by simp)) parsed
  have cut : Segment.cutFrom 0 text = ((Segment.cutFrom 0 text).1, .spacing ended) := by
    rw [← isSpacing]
  rw [joined]
  simpa [renderAll] using Segment.flatMap_text_cutFrom cut

theorem exists_of_readable {text : Text} {test : Sheet → Bool} (readable : (parse text).toOption.any test = true) :
    ∃ sheet, parse text = .ok sheet ∧ test sheet = true := by
  cases parsed : parse text with
  | error => rw [parsed] at readable; cases readable
  | ok sheet => exact ⟨sheet, rfl, by rwa [parsed] at readable⟩

/-- A sheet that was read is written as the text that it was read from. -/
theorem toText_of_parse {text : Text} {sheet : Sheet} (parsed : parse text = .ok sheet) : sheet.toText = text := by
  obtain ⟨items, trailing, read, stored, size⟩ := exists_holds_of_parse parsed
  have whole : sheet.item root = rootItem items trailing := stored.itemWithin_eq (by omega)
  rw [toText, whole, rootItem, render]
  exact renderAll_parseItems read

theorem toText_of_parse_nested :
    ∃ sheet, parse ";\u2003@m a){.b/**/{ x : 1/*c*/!IMPORTANT;;{y:2}z:3 } }\u3000".toList = .ok sheet ∧
      sheet.toText = ";\u2003@m a){.b/**/{ x : 1/*c*/!IMPORTANT;;{y:2}z:3 } }\u3000".toList := by
  obtain ⟨sheet, parsed, _⟩ := exists_of_readable
    (by cbv : (parse ";\u2003@m a){.b/**/{ x : 1/*c*/!IMPORTANT;;{y:2}z:3 } }\u3000".toList).toOption.any (fun _ => true) = true)
  exact ⟨sheet, parsed, toText_of_parse parsed⟩

end Sheet
end StyleFlip
