import StyleFlip.Proofs.Lexemes

/-!
Where the nodes of a sheet stand in its text. Every step of the cut of a text is taken at the byte that it counts to
(`Segment.TakenIn`), and the nodes of a sheet that was read behind its root are what the segments of the text start, closing braces
left out, one by one and in the same order (`exists_source_of_parse`).
-/
namespace StyleFlip

/-! ## Places of segments -/

namespace Segment
open Text

/-- A step of the cut of a text whose first byte is at `offset`: it is taken at the start of some rest of the text, and the byte at
which it starts counts the text before that rest. -/
def TakenIn (offset : Nat) (text : Text) (taken : Step) : Prop :=
  ∃ earlier rest before, text = earlier ++ rest ∧ stepAt before (offset + byteCount earlier) rest = taken

theorem takenIn_step (offset : Nat) (text : Text) : TakenIn offset text (step offset text) :=
  ⟨text.takeWhile isSpacing, text.dropWhile isSpacing, _, List.takeWhile_append_dropWhile.symm, rfl⟩

/-- A step behind the first segment is a step of the whole text. -/
theorem TakenIn.behind {offset : Nat} {text following : Text} {segment : Segment} {taken : Step}
    (first : step offset text = .segment segment following)
    (later : TakenIn (segment.start + byteCount segment.shape.text) following taken) : TakenIn offset text taken := by
  obtain ⟨earlier, rest, before, rfl, stepped⟩ := later
  obtain ⟨own, start, _⟩ := stepAt_eq_segment first
  refine ⟨segment.before ++ segment.shape.text ++ earlier, rest, before, ?_, ?_⟩
  · rw [step_eq_segment first, List.append_assoc _ earlier]
  · rwa [byteCount_append, byteCount_append, ← Nat.add_assoc, ← Nat.add_assoc, own, ← start]

theorem takenIn_of_mem_cutFrom {offset : Nat} {text : Text} {segment : Segment} (member : segment ∈ (cutFrom offset text).1) :
    ∃ following, TakenIn offset text (.segment segment following) := by
  fun_induction cutFrom offset text with
  | case1 => cases member
  | case2 offset text first following taken others ending later ih =>
    rcases List.mem_cons.mp member with rfl | other
    · exact ⟨following, taken ▸ takenIn_step offset text⟩
    · obtain ⟨last, inner⟩ := ih (by rwa [later])
      exact ⟨last, inner.behind taken⟩

theorem takenIn_of_fault {offset : Nat} {text : Text} {error : ParseError} (fault : (cutFrom offset text).2 = .fault error) :
    TakenIn offset text (.stop (.fault error)) := by
  fun_induction cutFrom offset text with
  | case1 offset text ending stopped =>
    cases fault
    exact stopped ▸ takenIn_step offset text
  | case2 offset text first following taken others ending later ih =>
    exact (ih (by rwa [later])).behind taken

end Segment

/-- The header of a segment that has one. -/
def Shape.header? : Shape → Option Text
  | .opening header | .statement header _ => some header
  | _ => none

namespace Segment
open Text

/-- The header of a segment was read at the byte where the segment starts. -/
theorem readHeader_of_stepAt {before text following header : Text} {start : Nat} {segment : Segment}
    (taken : stepAt before start text = .segment segment following) (own : segment.shape.header? = some header) :
    ∃ rest, text = header ++ rest ∧ readHeader .plain 0 start text = .ok (header, rest) := by
  unfold stepAt at taken
  split at taken
  · cases taken
  · cases taken
    cases own
  · split at taken <;> cases taken
    cases own
  · split at taken
    · cases taken
    all_goals
      rename_i read
      cases taken
      cases own
      exact ⟨_, readHeader_eq_ok read, read⟩

end Segment

/-! ## Sources of nodes -/

/-- A node as it is started: the blanks at the end of its block are not known yet. -/
def Content.started (content : Content) (spacing : Spacing) : Content × Spacing :=
  match content with
  | .declaration _ => (content, spacing)
  | _ => (content, { spacing with after := [] })

/-- A node of a sheet as it was started. -/
def Node.started (node : Node) : Content × Spacing := node.content.started node.spacing

theorem Content.started_after {content : Content} (other : content.kind ≠ .declaration) (spacing : Spacing) (after : Text) :
    content.started { spacing with after } = content.started spacing := by
  cases content with
  | declaration => exact absurd rfl other
  | _ => rfl

/-- What a segment starts, if it is no closing brace and its header can be read. -/
def Segment.starts? (segment : Segment) : Option (Content × Spacing) :=
  match segment.shape with
  | .comment text => some (.comment text, { before := segment.before })
  | .opening header => some (Sheet.blockOf segment.before header)
  | .statement header semicolon => Sheet.statementOf? segment.before header semicolon
  | .closing => none

/-- The segments of a text that start nodes. -/
def Segment.sources (text : Text) : List Segment := (Segment.cut text).1.filter fun segment => segment.shape != .closing

namespace Item

mutual
/-- The nodes of an item as they were started, in document order. -/
def started : Item → List (Content × Spacing)
  | .node content spacing children => content.started spacing :: startedAll children

/-- The nodes of several items as they were started, in document order. -/
def startedAll : List Item → List (Content × Spacing)
  | [] => []
  | item :: rest => item.started ++ startedAll rest
end

theorem startedAll_concat (items : List Item) (item : Item) : startedAll (items ++ [item]) = startedAll items ++ item.started := by
  induction items with
  | nil => simp [startedAll]
  | cons first rest ih => simp [startedAll, ih]

mutual
theorem length_started : ∀ item : Item, item.started.length = item.count
  | .node content spacing children => by rw [started, count, List.length_cons, length_startedAll]

theorem length_startedAll : ∀ items : List Item, (startedAll items).length = countAll items
  | [] => rfl
  | item :: rest => by rw [startedAll, countAll, List.length_append, length_started, length_startedAll]
end

end Item

namespace Sheet
open Item

theorem started_blockOf (before header : Text) :
    (blockOf before header).1.started (blockOf before header).2 = blockOf before header ∧
      (blockOf before header).1.kind ≠ .declaration := by
  unfold blockOf
  split <;> exact ⟨rfl, by simp [atRuleOf, Content.kind]⟩

theorem started_statementOf? {before header : Text} {semicolon : Bool} {content : Content} {spacing : Spacing}
    (found : statementOf? before header semicolon = some (content, spacing)) : content.started spacing = (content, spacing) := by
  unfold statementOf? at found
  split at found
  · cases found
    rfl
  · obtain ⟨⟨decl, after⟩, -, equal⟩ := Option.map_eq_some_iff.mp found
    cases equal
    rfl

/-- The nodes that were started by the time the given blocks are open and the given items are finished. -/
def startedSoFar : List Frame → List Item → List (Content × Spacing)
  | [], done => startedAll done.reverse
  | frame :: outer, done =>
    startedSoFar outer frame.earlier ++ frame.content.started frame.spacing :: startedAll done.reverse

theorem startedSoFar_cons (frames : List Frame) (item : Item) (done : List Item) :
    startedSoFar frames (item :: done) = startedSoFar frames done ++ item.started := by
  cases frames with
  | nil => simp [startedSoFar, startedAll_concat]
  | cons frame outer => simp [startedSoFar, startedAll_concat]

/-- The nodes of assembled items are those that were started before, and what the segments start. -/
theorem map_startedAll_assemble {segments : List Segment} {frames : List Frame} {done items : List Item} {trailing : Text}
    {ending : Ending} (around : ∀ frame ∈ frames, frame.content.kind ≠ .declaration)
    (assembled : assemble frames done segments ending = .ok (items, trailing)) :
    (startedAll items).map some = (startedSoFar frames done).map some ++
      (segments.filter fun segment => segment.shape != .closing).map Segment.starts? := by
  induction segments generalizing frames done with
  | nil =>
    cases ending with
    | fault => cases assembled
    | spacing ended =>
      cases frames with
      | nil =>
        cases assembled
        simp [startedSoFar]
      | cons => cases assembled
  | cons segment rest ih =>
    cases shape : segment.shape with
    | comment body =>
      simp only [assemble, shape] at assembled
      rw [ih around assembled, startedSoFar_cons]
      simp [shape, Segment.starts?, started, startedAll, Content.started]
    | closing =>
      simp only [assemble, shape] at assembled
      cases frames with
      | nil => cases assembled
      | cons frame outer =>
        obtain ⟨block, outside⟩ := List.forall_mem_cons.mp around
        rw [ih outside assembled, startedSoFar_cons, started, Content.started_after block]
        simp [shape, startedSoFar]
    | opening header =>
      simp only [assemble, shape] at assembled
      obtain ⟨whole, block⟩ := started_blockOf segment.before header
      rw [ih (List.forall_mem_cons.mpr ⟨block, around⟩) assembled]
      simp [shape, startedSoFar, Segment.starts?, whole, startedAll]
    | statement header semicolon =>
      simp only [assemble, shape] at assembled
      split at assembled
      · cases assembled
      · rename_i content spacing found
        rw [ih around assembled, startedSoFar_cons]
        simp [shape, Segment.starts?, found, started, startedAll, started_statementOf? found]

mutual
/-- The nodes of a stored item stand in the sheet one after the other. -/
theorem Stores.getElem?_started {sheet : Sheet} {parent : Option NodeId} {id : Nat} :
    ∀ {item : Item}, sheet.Stores parent id item → ∀ n, n < item.count →
      item.started[n]? = some (sheet.node (id + n)).started
  | .node content spacing children, stored, n, inside => by
    rw [started]
    cases n with
    | zero =>
      rw [Nat.add_zero, node_eq_of_getElem? stored.1]
      rfl
    | succ n =>
      rw [List.getElem?_cons_succ, stored.2.getElem?_startedAll n (by rw [count] at inside; omega), Nat.add_right_comm,
        Nat.add_assoc]

theorem StoresAll.getElem?_startedAll {sheet : Sheet} {parent start : Nat} :
    ∀ {items : List Item}, sheet.StoresAll parent start items → ∀ n, n < countAll items →
      (startedAll items)[n]? = some (sheet.node (start + n)).started
  | [], _, n, inside => absurd inside (Nat.not_lt_zero n)
  | item :: rest, stored, n, inside => by
    rw [startedAll]
    rw [countAll] at inside
    by_cases first : n < item.count
    · rw [List.getElem?_append_left (by rwa [length_started]), stored.1.getElem?_started n first]
    · rw [List.getElem?_append_right (by rw [length_started]; omega), length_started,
        stored.2.getElem?_startedAll _ (by omega), Nat.add_assoc, Nat.add_sub_cancel' (by omega)]
end

/-- Every node behind the root of a sheet that was read is what the segment with its number starts. -/
theorem exists_source_of_parse {text : Text} {sheet : Sheet} (parsed : parse text = .ok sheet) {n : Nat}
    (inside : n + 1 < sheet.size) :
    ∃ segment, (Segment.sources text)[n]? = some segment ∧ segment.starts? = some (sheet.node (n + 1)).started := by
  obtain ⟨items, trailing, read, stored, size⟩ := exists_holds_of_parse parsed
  have row := map_startedAll_assemble (by simp) read
  have here : (startedAll items)[n]? = some (sheet.node (n + 1)).started := by
    rw [Nat.add_comm n 1]
    exact stored.2.getElem?_startedAll n (by rw [size, rootItem, count] at inside; omega)
  have there := congrArg (fun row : List (Option (Content × Spacing)) => row[n]?) row
  simp only [startedSoFar, startedAll, List.reverse_nil, List.map_nil, List.nil_append, List.getElem?_map, here,
    Option.map_some] at there
  obtain ⟨segment, found, starts⟩ := Option.map_eq_some_iff.mp there.symm
  exact ⟨segment, found, starts⟩

end Sheet
end StyleFlip
