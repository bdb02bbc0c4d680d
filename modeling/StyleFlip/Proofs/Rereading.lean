import StyleFlip.Proofs.RoundTrip

/-!
Reading what was written. A segment that was once cut from a text is cut again wherever its text stands: how it is read
depends on the text before it only through the bytes that are counted, and on the text after it only if it is a statement
without a semicolon, which needs its block to end there (`Segment.Lasting`). An item all of whose segments are of this kind,
with such statements only at the ends of blocks, is read again from what is written for it (`Item.Legible`,
`parseItems_renderAll`). Every item that was read is one (`legible_parseItems`).
-/
namespace StyleFlip

/-! ## Headers -/

/-- Whether a segment is a statement without a semicolon. -/
def Shape.isBare : Shape → Bool
  | .statement _ false => true
  | _ => false

namespace Segment

/-- The same mode, whatever the byte at which a string or comment was opened. -/
def Mode.Alike : Mode → Mode → Prop
  | .plain, .plain => True
  | .quoted quote _, .quoted other _ => quote = other
  | .escaped quote _, .escaped other _ => quote = other
  | .commented _, .commented _ => True
  | _, _ => False

theorem Mode.Alike.refl (mode : Mode) : mode.Alike mode := by
  cases mode <;> trivial

theorem Mode.Alike.eq_plain {other : Mode} (alike : Mode.plain.Alike other) : other = .plain := by
  cases other with
  | plain => rfl
  | _ => cases alike

theorem Mode.Alike.exists_commented {opened : Nat} {other : Mode} (alike : (Mode.commented opened).Alike other) :
    ∃ begun, other = .commented begun := by
  cases other with
  | commented begun => exact ⟨begun, rfl⟩
  | _ => cases alike

theorem Mode.Alike.exists_quoted {quote : Char} {opened : Nat} {other : Mode} (alike : (Mode.quoted quote opened).Alike other) :
    ∃ begun, other = .quoted quote begun := by
  cases other with
  | quoted same begun => exact ⟨begun, by rw [show quote = same from alike]⟩
  | _ => cases alike

theorem Mode.Alike.exists_escaped {quote : Char} {opened : Nat} {other : Mode}
    (alike : (Mode.escaped quote opened).Alike other) : ∃ begun, other = .escaped quote begun := by
  cases other with
  | escaped same begun => exact ⟨begun, by rw [show quote = same from alike]⟩
  | _ => cases alike

theorem alike_after (quote : Char) (opened begun : Nat) (c : Char) :
    Mode.Alike (if c = '\\' then .escaped quote opened else if c = quote then .plain else .quoted quote opened)
      (if c = '\\' then .escaped quote begun else if c = quote then .plain else .quoted quote begun) := by
  split
  · rfl
  · split
    · trivial
    · rfl

theorem alike_outside (opened begun : Nat) (c : Char) :
    Mode.Alike (if isQuote c then .quoted c opened else .plain) (if isQuote c then .quoted c begun else .plain) := by
  split
  · rfl
  · trivial

/-- What does not follow a character of a header does not follow it when the header is read again. -/
theorem not_followed {inner following next : Text} {c : Char} (same : next.head? = following.head?)
    (other : ∀ rest, inner ++ following = c :: rest → False) (rest : Text) : inner ++ next = c :: rest → False := by
  intro stands
  have first : (inner ++ following).head? = some c := by
    rw [List.head?_append, ← same, ← List.head?_append, stands, List.head?_cons]
  obtain ⟨more, whole⟩ := List.head?_eq_some_iff.mp first
  exact other more whole

/-- A header is read again before any text that starts like the one it was read before. -/
theorem readHeader_again {mode other : Mode} {depth offset : Nat} {text header following next : Text}
    (read : readHeader mode depth offset text = .ok (header, following)) (alike : mode.Alike other)
    (same : next.head? = following.head?) (start : Nat) :
    readHeader other depth start (header ++ next) = .ok (header, next) := by
  fun_induction readHeader mode depth offset text generalizing header other start with
  | case1 =>
    cases read
    obtain rfl := alike.eq_plain
    obtain rfl := List.head?_eq_none_iff.mp same
    rfl
  | case2 | case3 | case4 => cases read
  | case5 depth offset rest ih =>
    obtain rfl := alike.eq_plain
    obtain ⟨inner, later, rfl⟩ := map_keep_eq_ok read
    have again : readHeader (.commented start) depth (start + 2) (inner ++ next) = .ok (inner, next) := ih later (by trivial) _
    simp only [List.cons_append, List.nil_append, readHeader, again]
    rfl
  | case6 opened depth offset rest ih =>
    obtain ⟨begun, rfl⟩ := alike.exists_commented
    obtain ⟨inner, later, rfl⟩ := map_keep_eq_ok read
    have again : readHeader .plain depth (start + 2) (inner ++ next) = .ok (inner, next) := ih later (by trivial) _
    simp only [List.cons_append, List.nil_append, readHeader, again]
    rfl
  | case7 opened depth offset c rest inside ih =>
    obtain ⟨begun, rfl⟩ := alike.exists_commented
    obtain ⟨inner, later, rfl⟩ := map_keep_eq_ok read
    obtain rfl := readHeader_eq_ok later
    have again : readHeader (.commented begun) depth (start + c.utf8Size) (inner ++ next) = .ok (inner, next) :=
      ih later (by trivial) _
    rw [List.append_assoc, List.singleton_append, readHeader, again]
    · rfl
    · exact fun rest star => not_followed same (fun rest slash => inside rest star slash) rest
  | case8 quote opened depth offset c rest ih =>
    obtain ⟨begun, rfl⟩ := alike.exists_escaped
    obtain ⟨inner, later, rfl⟩ := map_keep_eq_ok read
    have again : readHeader (.quoted quote begun) depth (start + c.utf8Size) (inner ++ next) = .ok (inner, next) :=
      ih later (by rfl) _
    rw [List.append_assoc, List.singleton_append, readHeader, again]
    rfl
  | case9 quote opened depth offset c rest mode =>
    rename_i ih
    obtain ⟨begun, rfl⟩ := alike.exists_quoted
    obtain ⟨inner, later, rfl⟩ := map_keep_eq_ok read
    have again := ih later (alike_after quote opened begun c) (start + c.utf8Size)
    simp only [List.cons_append, List.nil_append, readHeader, again]
    rfl
  | case10 depth offset c rest _ stops =>
    cases read
    obtain rfl := alike.eq_plain
    obtain ⟨more, rfl⟩ := List.head?_eq_some_iff.mp same
    have brace : c ≠ '/' := by
      rintro rfl
      simp [endsHeader] at stops
    rw [List.nil_append, readHeader, if_pos stops]
    exact fun _ slash _ => brace slash
  | case11 depth offset c rest alone stays mode =>
    rename_i ih
    obtain rfl := alike.eq_plain
    obtain ⟨inner, later, rfl⟩ := map_keep_eq_ok read
    obtain rfl := readHeader_eq_ok later
    have again := ih later (alike_outside offset start c) (start + c.utf8Size)
    rw [List.append_assoc, List.singleton_append, readHeader, if_neg stays]
    · simp only [again]
      rfl
    · exact fun rest slash => not_followed same (fun rest star => alone rest slash star) rest

/-! ## Segments -/

/-- The segment that a header gives, by what follows it. -/
def ofHeader (before : Text) (start : Nat) (header : Text) : Text → Step
  | '{' :: following => .segment ⟨before, start, .opening header⟩ following
  | ';' :: following => .segment ⟨before, start, .statement header true⟩ following
  | following => .segment ⟨before, start, .statement header false⟩ following

theorem stepAt_of_readHeader {before rest header following : Text} {c : Char} {start : Nat} (inside : c ≠ '}')
    (alone : ∀ inner, c = '/' → rest = '*' :: inner → False)
    (read : readHeader .plain 0 start (c :: rest) = .ok (header, following)) :
    stepAt before start (c :: rest) = ofHeader before start header following := by
  rw [stepAt, read]
  · split
    · contradiction
    · rename_i equal
      cases equal
      rfl
    · rename_i equal
      cases equal
      rfl
    · rename_i opens ends equal
      cases equal
      rw [ofHeader]
      · exact opens
      · exact ends
  · exact inside
  · exact alone

/-- A header is read again as the same segment: the text before which it was read does not show whether it opens a comment
or closes a block. -/
theorem stepAt_again_of_readHeader {rest header following next : Text} {c : Char} {start : Nat} (inside : c ≠ '}')
    (alone : ∀ inner, c = '/' → rest = '*' :: inner → False)
    (read : readHeader .plain 0 start (c :: rest) = .ok (header, following)) (same : next.head? = following.head?)
    (before : Text) (begun : Nat) : stepAt before begun (header ++ next) = ofHeader before begun header next := by
  have whole := readHeader_eq_ok read
  have again := readHeader_again read (.refl _) same begun
  cases header with
  | cons first inner =>
    obtain ⟨rfl, rfl⟩ := List.cons_eq_cons.mp whole
    exact stepAt_of_readHeader inside
      (fun rest slash => not_followed same (fun rest star => alone rest slash star) rest) again
  | nil =>
    subst whole
    obtain ⟨more, rfl⟩ := List.head?_eq_some_iff.mp same
    refine stepAt_of_readHeader inside ?_ again
    rintro inner rfl
    rcases readHeader_following read with none | ⟨c, rest, equal, stops⟩
    · cases none
    · cases equal
      cases stops

/-- A segment is cut again from its own text, whatever stood before it. -/
theorem stepAt_again {before text following next : Text} {start : Nat} {segment : Segment}
    (taken : stepAt before start text = .segment segment following)
    (same : segment.shape.isBare = true → next.head? = following.head?) (other : Text) (begun : Nat) :
    stepAt other begun (segment.shape.text ++ next) = .segment ⟨other, begun, segment.shape⟩ next := by
  unfold stepAt at taken
  split at taken
  · cases taken
  · cases taken
    rfl
  · split at taken
    · cases taken
    · rename_i body later found
      cases taken
      have again := Text.cut?_again found next
      simp only [Shape.text, Text.commentOpen, List.cons_append, List.nil_append, stepAt, again]
  · rename_i c rest inside alone
    split at taken
    · cases taken
    · rename_i header later read
      cases taken
      simp only [Shape.text, List.append_assoc, List.singleton_append]
      exact stepAt_again_of_readHeader inside alone read (by rfl) other begun
    · rename_i header later read
      cases taken
      simp only [Shape.text, if_true, List.append_assoc, List.singleton_append]
      exact stepAt_again_of_readHeader inside alone read (by rfl) other begun
    · rename_i header later opens ends read
      cases taken
      have same := same rfl
      simp only [Shape.text, Bool.false_eq_true, if_false, List.append_nil]
      rw [stepAt_again_of_readHeader inside alone read same other begun]
      unfold ofHeader
      split
      · obtain ⟨more, equal⟩ := List.head?_eq_some_iff.mp same.symm
        exact absurd equal (opens more)
      · obtain ⟨more, equal⟩ := List.head?_eq_some_iff.mp same.symm
        exact absurd equal (ends more)
      · rfl

/-- A segment is cut again wherever its text stands. A statement without a semicolon must be followed by `close`, or by the
end of the text if there is none. -/
def Lasting (close : Option Char) (before : Text) (shape : Shape) : Prop :=
  ∀ offset following, (shape.isBare = true → following.head? = close) →
    step offset (before ++ shape.text ++ following) = .segment ⟨before, offset + Text.byteCount before, shape⟩ following

theorem Lasting.of_not_isBare {close other : Option Char} {before : Text} {shape : Shape} (lasting : Lasting close before shape)
    (own : shape.isBare = false) : Lasting other before shape :=
  fun offset following _ => lasting offset following (by rw [own]; exact fun bare => absurd bare Bool.false_ne_true)

theorem step_of_spacing {before text : Text} (offset : Nat) (blank : ∀ c ∈ before, isSpacing c = true)
    (starts : ∀ c ∈ text.head?, isSpacing c = false) :
    step offset (before ++ text) = stepAt before (offset + Text.byteCount before) text := by
  have none : text.takeWhile isSpacing = [] := by
    cases text with
    | nil => rfl
    | cons c rest => exact List.takeWhile_cons_of_neg (by simp [starts c rfl])
  have all : text.dropWhile isSpacing = text := by
    cases text with
    | nil => rfl
    | cons c rest => exact List.dropWhile_cons_of_neg (by simp [starts c rfl])
  rw [step, List.takeWhile_append_of_pos blank, List.dropWhile_append_of_pos blank, none, all, List.append_nil]

theorem step_spacing {text : Text} (offset : Nat) (blank : ∀ c ∈ text, isSpacing c = true) :
    step offset text = .stop (.spacing text) := by
  have whole := @step_of_spacing text [] offset blank (by simp)
  rwa [List.append_nil] at whole

theorem blank_of_segment {offset : Nat} {text following : Text} {segment : Segment}
    (taken : step offset text = .segment segment following) : ∀ c ∈ segment.before, isSpacing c = true := by
  rw [(stepAt_eq_segment taken).1]
  exact fun c member => List.mem_takeWhile_imp member

/-- A segment that was cut from a text lasts. -/
theorem lasting_of_step {offset : Nat} {text following : Text} {segment : Segment}
    (taken : step offset text = .segment segment following) : Lasting following.head? segment.before segment.shape := by
  intro begun next same
  obtain ⟨_, _, rest⟩ := stepAt_eq_segment taken
  have starts : ∀ c ∈ (segment.shape.text ++ next).head?, isSpacing c = false := by
    intro c first
    have inside : segment.shape.text.head? = some c := by
      rwa [List.head?_append_of_ne_nil _ (shape_text_ne_nil taken)] at first
    have plain := List.head?_dropWhile_not isSpacing text
    rwa [rest, List.head?_append, inside] at plain
  rw [List.append_assoc, step_of_spacing begun (blank_of_segment taken) starts]
  exact stepAt_again taken same _ _

theorem cutFrom_of_stop {offset : Nat} {text : Text} {ending : Ending} (stopped : step offset text = .stop ending) :
    cutFrom offset text = ([], ending) := by
  rw [cutFrom]
  split
  · rename_i same
    rw [stopped] at same
    cases same
    rfl
  · rename_i other
    rw [stopped] at other
    cases other

theorem cutFrom_of_segment {offset : Nat} {text following : Text} {segment : Segment}
    (taken : step offset text = .segment segment following) :
    cutFrom offset text =
      (segment :: (cutFrom (segment.start + Text.byteCount segment.shape.text) following).1,
        (cutFrom (segment.start + Text.byteCount segment.shape.text) following).2) := by
  rw [cutFrom]
  split
  · rename_i other
    rw [taken] at other
    cases other
  · rename_i same
    rw [taken] at same
    cases same
    rfl

end Segment

/-! ## Items -/

namespace Sheet
open Item Segment

/-- The items of a text, behind open blocks and finished items. -/
def assembleFrom (frames : List Frame) (done : List Item) (offset : Nat) (text : Text) : Except ParseError (List Item × Text) :=
  assemble frames done (cutFrom offset text).1 (cutFrom offset text).2

section
variable {frames : List Frame} {done : List Item} {offset start : Nat} {text before following : Text}

theorem assembleFrom_of_comment {body : Text} (taken : step offset text = .segment ⟨before, start, .comment body⟩ following) :
    assembleFrom frames done offset text =
      assembleFrom frames (.node (.comment body) { before } [] :: done) (start + Text.byteCount (Shape.comment body).text)
        following := by
  rw [assembleFrom, cutFrom_of_segment taken]
  rfl

theorem assembleFrom_of_opening {header : Text} (taken : step offset text = .segment ⟨before, start, .opening header⟩ following) :
    assembleFrom frames done offset text =
      assembleFrom (⟨(blockOf before header).1, (blockOf before header).2, start + Text.byteCount header, done⟩ :: frames) []
        (start + Text.byteCount (Shape.opening header).text) following := by
  rw [assembleFrom, cutFrom_of_segment taken]
  rfl

theorem assembleFrom_of_statement {header : Text} {semicolon : Bool} {content : Content} {spacing : Spacing}
    (taken : step offset text = .segment ⟨before, start, .statement header semicolon⟩ following)
    (read : statementOf? before header semicolon = some (content, spacing)) :
    assembleFrom frames done offset text =
      assembleFrom frames (.node content spacing [] :: done)
        (start + Text.byteCount (Shape.statement header semicolon).text) following := by
  rw [assembleFrom, cutFrom_of_segment taken]
  simp only [assemble, read]
  rfl

theorem assembleFrom_of_closing {frame : Frame} (taken : step offset text = .segment ⟨before, start, .closing⟩ following) :
    assembleFrom (frame :: frames) done offset text =
      assembleFrom frames (.node frame.content { frame.spacing with after := before } done.reverse :: frame.earlier)
        (start + Text.byteCount Shape.closing.text) following := by
  rw [assembleFrom, cutFrom_of_segment taken]
  rfl

end

theorem step_closing {before : Text} (offset : Nat) (blank : ∀ c ∈ before, isSpacing c = true) (rest : Text) :
    step offset (before ++ '}' :: rest) = .segment ⟨before, offset + Text.byteCount before, .closing⟩ rest := by
  rw [step_of_spacing offset blank]
  · rfl
  · rintro c ⟨⟩
    decide

theorem step_brace (offset : Nat) (rest : Text) : step offset ('}' :: rest) = .segment ⟨[], offset, .closing⟩ rest :=
  @step_closing [] offset (by simp) rest

/-- The items of a block and the spacing at its end: only the last item may lack a semicolon, and then nothing stands between
it and the end. -/
structure Spaced (after : Text) (items : List Item) : Prop where
  blank : ∀ c ∈ after, isSpacing c = true
  own : items.Pairwise fun earlier _ => earlier.ends = true
  last : after = [] ∨ ∀ item ∈ items, item.ends = true

/-- An item that can be read from what is written for it, in a block that ends with `close`. -/
inductive Legible : Option Char → Item → Prop where
  | comment {close : Option Char} {before text : Text} (lasting : Lasting close before (.comment text)) :
      Legible close (.node (.comment text) { before } [])
  | statement {close : Option Char} {before header : Text} {semicolon : Bool} {content : Content} {spacing : Spacing}
      (lasting : Lasting close before (.statement header semicolon))
      (read : statementOf? before header semicolon = some (content, spacing)) : Legible close (.node content spacing [])
  | block {close : Option Char} {before header : Text} {content : Content} {spacing : Spacing} {children : List Item}
      (lasting : Lasting close before (.opening header)) (read : (blockOf before header).1 = content)
      (around : { (blockOf before header).2 with after := spacing.after } = spacing) (spaced : Spaced spacing.after children)
      (below : ∀ child ∈ children, Legible (some '}') child) : Legible close (.node content spacing children)

/-- Whether a block can be read from its own text is a matter of its header and of the items in it. -/
theorem Legible.exchange {close : Option Char} {content : Content} {spacing : Spacing} {children others : List Item}
    (legible : Legible close (.node content spacing children)) (none : children = [] → others = [])
    (spaced : Spaced spacing.after children → Spaced spacing.after others)
    (below : (∀ child ∈ children, Legible (some '}') child) → ∀ child ∈ others, Legible (some '}') child) :
    Legible close (.node content spacing others) := by
  cases legible with
  | comment lasting =>
    obtain rfl := none rfl
    exact .comment lasting
  | statement lasting read =>
    obtain rfl := none rfl
    exact .statement lasting read
  | block lasting read around kept inner => exact .block lasting read around (spaced kept) (below inner)

/-- What is written for an item is read as the item, whatever comes after it; an item without a semicolon must be followed
by `close`. -/
def Rereads (close : Option Char) (item : Item) : Prop :=
  ∀ (frames : List Frame) (done : List Item) (offset : Nat) (rest : Text), item.ends = true ∨ rest.head? = close →
    ∃ later, assembleFrom frames done offset (item.render true ++ rest) = assembleFrom frames (item :: done) later rest

theorem rereads_all {close : Option Char} {items : List Item} (all : ∀ item ∈ items, Rereads close item)
    (own : items.Pairwise fun earlier _ => earlier.ends = true) (frames : List Frame) (done : List Item) (offset : Nat)
    {rest : Text} (last : rest.head? = close ∨ ∀ item ∈ items, item.ends = true) :
    ∃ later, assembleFrom frames done offset (renderAll items ++ rest) =
      assembleFrom frames (items.reverse ++ done) later rest := by
  induction items generalizing done offset with
  | nil => exact ⟨offset, rfl⟩
  | cons item others ih =>
    obtain ⟨here, inOthers⟩ := List.forall_mem_cons.mp all
    obtain ⟨ended, own⟩ := List.pairwise_cons.mp own
    have separate : item.ends = true ∨ others = [] ∧ rest.head? = close := by
      cases others with
      | nil =>
        rcases last with stop | each
        · exact .inr ⟨rfl, stop⟩
        · exact .inl (each item List.mem_cons_self)
      | cons next more => exact .inl (ended next List.mem_cons_self)
    have written : item.render others.isEmpty = item.render true := by
      rcases separate with ends | ⟨rfl, _⟩
      · exact render_of_ends ends _
      · rfl
    obtain ⟨middle, first⟩ := here frames done offset (renderAll others ++ rest) (by
      rcases separate with ends | ⟨rfl, stop⟩
      · exact .inl ends
      · exact .inr stop)
    obtain ⟨later, others⟩ := ih inOthers own (item :: done) middle
      (last.imp_right fun each item member => each item (List.mem_cons_of_mem _ member))
    refine ⟨later, ?_⟩
    rw [renderAll, written, List.append_assoc, first, others]
    simp

theorem Legible.rereads {close : Option Char} {item : Item} (legible : Legible close item) : Rereads close item := by
  induction legible with
  | @comment close before text lasting =>
    intro frames done offset rest _
    have written : (Item.node (.comment text) { before } []).render true = before ++ (Shape.comment text).text := by
      simp [render, Shape.text]
    rw [written]
    exact ⟨_, assembleFrom_of_comment (lasting offset rest (by simp [Shape.isBare]))⟩
  | @statement close before header semicolon content spacing lasting read =>
    intro frames done offset rest ends
    obtain ⟨written, own⟩ := render_statementOf? read
    rw [own] at ends
    have followed : (Shape.statement header semicolon).isBare = true → rest.head? = close := by
      rcases ends with rfl | stop
      · exact fun bare => absurd bare Bool.false_ne_true
      · exact fun _ => stop
    rw [written, List.append_assoc before]
    exact ⟨_, assembleFrom_of_statement (lasting offset rest followed) read⟩
  | @block close before header content spacing children lasting read around spaced _ ih =>
    intro frames done offset rest _
    -- The header opens the block, its items are read one after the other, and the spacing and the brace close it.
    have opens := opens_blockOf before header 0 [] spacing.after children
    simp only [read, around] at opens
    have written : (Item.node content spacing children).render true ++ rest =
        before ++ (Shape.opening header).text ++ (renderAll children ++ (spacing.after ++ '}' :: rest)) := by
      rw [opens.1]
      simp [Shape.text]
    have taken := lasting offset (renderAll children ++ (spacing.after ++ '}' :: rest)) (by simp [Shape.isBare])
    have stop : (spacing.after ++ '}' :: rest).head? = some '}' ∨ ∀ child ∈ children, child.ends = true := by
      refine spaced.last.imp_left fun none => ?_
      rw [none]
      rfl
    rw [written, assembleFrom_of_opening taken]
    obtain ⟨last, below⟩ := rereads_all ih spaced.own _ [] _ stop
    rw [below, assembleFrom_of_closing (step_closing last spaced.blank rest)]
    simp only [read, around, List.append_nil, List.reverse_reverse]
    exact ⟨_, rfl⟩

/-- Items with the spacing behind them are read from what is written for them. -/
theorem parseItems_renderAll {items : List Item} {trailing : Text} (legible : ∀ item ∈ items, Legible none item)
    (spaced : Spaced trailing items) : parseItems (renderAll items ++ trailing) = .ok (items, trailing) := by
  have stop : trailing.head? = none ∨ ∀ item ∈ items, item.ends = true := by
    refine spaced.last.imp_left fun none => ?_
    rw [none]
    rfl
  obtain ⟨later, read⟩ := rereads_all (fun item member => (legible item member).rereads) spaced.own [] [] 0 stop
  calc parseItems (renderAll items ++ trailing)
    _ = assembleFrom [] [] 0 (renderAll items ++ trailing) := rfl
    _ = assembleFrom [] (items.reverse ++ []) later trailing := read
    _ = .ok (items, trailing) := by
      rw [assembleFrom, cutFrom_of_stop (step_spacing later spaced.blank)]
      simp [assemble]

/-! ## What is read -/

/-- The character that ends the innermost block; at the top it is the end of the text. -/
def closeOf (frames : List Frame) : Option Char := if frames.isEmpty then none else some '}'

/-- Open blocks whose headers and earlier items can be read again. -/
def LegibleFrames : List Frame → Prop
  | [] => True
  | frame :: outer =>
    (∃ before header, Lasting (closeOf outer) before (.opening header) ∧ blockOf before header = (frame.content, frame.spacing)) ∧
      (∀ item ∈ frame.earlier, Legible (closeOf outer) item ∧ item.ends = true) ∧ LegibleFrames outer

/-- The finished items of the innermost block, latest first, before the rest of the text: the latest may lack a semicolon
where the block or the text ends. -/
structure LegibleDone (close : Option Char) (done : List Item) (text : Text) : Prop where
  legible : ∀ item ∈ done, Legible close item
  own : (∀ item ∈ done, item.ends = true) ∨ (∀ item ∈ done.tail, item.ends = true) ∧ (text = [] ∨ ∃ rest, text = '}' :: rest)

theorem legibleDone_nil (close : Option Char) (text : Text) : LegibleDone close [] text := ⟨by simp, .inl (by simp)⟩

theorem LegibleDone.spaced {close : Option Char} {done : List Item} {text after : Text} (settled : LegibleDone close done text)
    (blank : ∀ c ∈ after, isSpacing c = true) (none : (text = [] ∨ ∃ rest, text = '}' :: rest) → after = []) :
    Spaced after done.reverse := by
  have later : ∀ item ∈ done.tail, item.ends = true :=
    settled.own.elim (fun each item member => each item (List.mem_of_mem_tail member)) And.left
  refine ⟨blank, ?_, ?_⟩
  · rw [List.pairwise_reverse]
    cases done with
    | nil => exact .nil
    | cons latest earlier =>
      exact .cons later (List.pairwise_of_forall_mem_list fun _ _ item member => later item member)
  · rcases settled.own with each | ⟨_, stops⟩
    · exact .inr fun item member => each item (List.mem_reverse.mp member)
    · exact .inl (none stops)

theorem blank_of_stop {offset : Nat} {text trailing : Text} (stopped : step offset text = .stop (.spacing trailing)) :
    ∀ c ∈ trailing, isSpacing c = true := by
  obtain ⟨empty, _⟩ := stepAt_stop_spacing stopped
  rw [step_stop_spacing stopped]
  exact List.dropWhile_eq_nil_iff.mp empty

/-- Where a block or the text ends, it is the block that was opened last, or no block is open. -/
theorem head?_eq_closeOf {offset : Nat} {text : Text} {frames : List Frame} {done : List Item} {result : List Item × Text}
    (stops : text = [] ∨ ∃ rest, text = '}' :: rest) (assembled : assembleFrom frames done offset text = .ok result) :
    text.head? = closeOf frames := by
  rcases stops with rfl | ⟨rest, rfl⟩
  · rw [assembleFrom, cutFrom_of_stop (step_spacing offset (by simp))] at assembled
    cases frames with
    | nil => rfl
    | cons => cases assembled
  · rw [assembleFrom, cutFrom_of_segment (step_brace offset rest)] at assembled
    cases frames with
    | nil => cases assembled
    | cons => rfl

/-- Before any other segment than a closing brace all finished items end by themselves. -/
theorem LegibleDone.ends {close : Option Char} {done : List Item} {offset : Nat} {text following : Text} {segment : Segment}
    (settled : LegibleDone close done text) (taken : step offset text = .segment segment following)
    (inside : segment.shape ≠ .closing) : ∀ item ∈ done, item.ends = true := by
  rcases settled.own with each | ⟨_, rfl | ⟨rest, rfl⟩⟩
  · exact each
  · rw [step_spacing offset (by simp)] at taken
    cases taken
  · rw [step_brace] at taken
    cases taken
    exact absurd rfl inside

/-- When a block is closed, it can be read again and ends by itself, like the items before it. -/
theorem LegibleDone.close {frame : Frame} {outer : List Frame} {done : List Item} {offset start : Nat} {text before following : Text}
    (settled : LegibleDone (closeOf (frame :: outer)) done text) (around : LegibleFrames (frame :: outer))
    (taken : step offset text = .segment ⟨before, start, .closing⟩ following) :
    ∀ item ∈ Item.node frame.content { frame.spacing with after := before } done.reverse :: frame.earlier,
      Legible (closeOf outer) item ∧ item.ends = true := by
  obtain ⟨⟨head, header, opening, read⟩, earlier, _⟩ := around
  have spaced : Spaced before done.reverse := by
    refine settled.spaced (blank_of_segment taken) ?_
    rintro (rfl | ⟨rest, rfl⟩)
    · rw [step_spacing offset (by simp)] at taken
      cases taken
    · rw [step_brace] at taken
      cases taken
      rfl
  have closed : Legible (closeOf outer) (.node frame.content { frame.spacing with after := before } done.reverse) := by
    refine .block opening (by rw [read]) (by rw [read]) spaced ?_
    exact fun item member => settled.legible item (List.mem_reverse.mp member)
  have own := (opens_blockOf head header 0 [] before done.reverse).2
  simp only [read] at own
  exact List.forall_mem_cons.mpr ⟨⟨closed, own⟩, earlier⟩

/-- What is read can be read again. -/
theorem legible_assembleFrom {offset : Nat} {text trailing : Text} {frames : List Frame} {done items : List Item}
    (around : LegibleFrames frames) (settled : LegibleDone (closeOf frames) done text)
    (assembled : assembleFrom frames done offset text = .ok (items, trailing)) :
    (∀ item ∈ items, Legible none item) ∧ Spaced trailing items := by
  induction offset, text using cutFrom.induct generalizing frames done with
  | case1 offset text ending stopped =>
    rw [assembleFrom, cutFrom_of_stop stopped] at assembled
    cases ending with
    | fault => cases assembled
    | spacing ended =>
      cases frames with
      | cons => cases assembled
      | nil =>
        cases assembled
        refine ⟨fun item member => settled.legible item (List.mem_reverse.mp member), settled.spaced (blank_of_stop stopped) ?_⟩
        have whole := step_stop_spacing stopped
        rintro (rfl | ⟨rest, rfl⟩)
        · exact whole
        · rw [step_brace] at stopped
          cases stopped
  | case2 offset text segment following taken _ _ _ ih =>
    have lasting := lasting_of_step taken
    have ends := settled.ends taken
    obtain ⟨before, start, shape⟩ := segment
    cases shape with
    | comment body =>
      rw [assembleFrom_of_comment taken] at assembled
      refine ih around ⟨List.forall_mem_cons.mpr ⟨?_, settled.legible⟩, .inl ?_⟩ assembled
      · exact .comment (lasting.of_not_isBare rfl)
      · exact List.forall_mem_cons.mpr ⟨rfl, ends (by simp)⟩
    | closing =>
      cases frames with
      | nil =>
        rw [assembleFrom, cutFrom_of_segment taken] at assembled
        cases assembled
      | cons frame outer =>
        rw [assembleFrom_of_closing taken] at assembled
        have closed := settled.close around taken
        exact ih around.2.2 ⟨fun item member => (closed item member).1, .inl fun item member => (closed item member).2⟩ assembled
    | opening header =>
      rw [assembleFrom_of_opening taken] at assembled
      have inner : LegibleFrames (⟨(blockOf before header).1, (blockOf before header).2, start + Text.byteCount header, done⟩ ::
          frames) := by
        refine ⟨⟨before, header, lasting.of_not_isBare rfl, rfl⟩, ?_, around⟩
        exact fun item member => ⟨settled.legible item member, ends (by simp) item member⟩
      exact ih inner (legibleDone_nil _ _) assembled
    | statement header semicolon =>
      cases read : statementOf? before header semicolon with
      | none =>
        rw [assembleFrom, cutFrom_of_segment taken] at assembled
        simp only [assemble, read] at assembled
        cases assembled
      | some result =>
        obtain ⟨content, spacing⟩ := result
        rw [assembleFrom_of_statement taken read] at assembled
        obtain ⟨_, own⟩ := render_statementOf? read
        cases semicolon with
        | true =>
          refine ih around ⟨List.forall_mem_cons.mpr ⟨?_, settled.legible⟩, .inl ?_⟩ assembled
          · exact .statement (lasting.of_not_isBare rfl) read
          · exact List.forall_mem_cons.mpr ⟨own, ends (by simp)⟩
        | false =>
          have stops := following_of_bare taken rfl
          rw [head?_eq_closeOf stops assembled] at lasting
          refine ih around ⟨List.forall_mem_cons.mpr ⟨?_, settled.legible⟩, .inr ⟨ends (by simp), stops⟩⟩ assembled
          exact .statement lasting read

/-- The items of a text can be read from what is written for them. -/
theorem legible_parseItems {text trailing : Text} {items : List Item} (parsed : parseItems text = .ok (items, trailing)) :
    (∀ item ∈ items, Legible none item) ∧ Spaced trailing items := by
  have top : LegibleFrames [] := trivial
  exact legible_assembleFrom top (legibleDone_nil _ _) parsed

end Sheet
end StyleFlip
