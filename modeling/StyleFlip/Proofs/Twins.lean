import StyleFlip.Proofs.Stripping
import StyleFlip.Proofs.ValueMarks

/-!
Two runs of which one strips more than the other. They are twins (`Twins`) if they agree in everything but the options that
say whether to strip, the comments that are cut off (`Sheet.Stripped`) and the marks of declarations that a value directive has
dealt with. Every operation of the engine takes twins to twins, with the same answers: open directives that are asked
(`Twins.ask`), forms that are obeyed (`Twins.obey`), declarations (`Twins.flipValue`) and the selectors around them
(`Twins.renameAround`). Only nodes that come in before a comment need the comment to stand in both runs.
-/
namespace StyleFlip.Standard

/-! ## What may differ -/

/-- Options that differ at most in whether directives are stripped; the first strip wherever the second do. -/
def Alike (one two : Options) : Prop := ∃ clean, one = { two with clean := clean } ∧ (two.clean = true → clean = true)

/-- Forms that differ at most in whether their comment is to be kept; the second is kept wherever the first is. -/
def SameForm (one two : Invocation) : Prop :=
  ∃ preserve, one = { two with preserve := preserve } ∧ (preserve = true → two.preserve = true)

/-- Open directives that differ at most in whether their comment is to be kept. -/
structure SameEntry (sheet : Sheet) (one two : OpenDirective State) : Prop where
  form : SameForm one.invocation two.invocation
  control : one.control = two.control
  source : sheet.kind two.invocation.source = .comment

/-- The node is a declaration with a mark that a value directive looks for. -/
def isMarked (sheet : Sheet) (id : Nat) : Bool := (sheet.declaration? id).any fun decl => !isPlain (.declaration decl)

/-- The scenes of two runs over a sheet of which the first strips more, where `dealt` are the nodes that value directives may
deal with. -/
structure TwinScenes (sheet : Sheet) (dealt : Nat → Prop) (bare full : Scene) : Prop where
  stripped : ∃ gone, full.sheet.Stripped gone (fun n => ¬ (isMarked sheet n = true ∧ dealt n)) bare.sheet
  marks : ∀ n, isMarked sheet n = true ∧ dealt n → bare.sheet.content n = full.sheet.content n ∨
    ∃ decl, full.sheet.content n = .declaration decl ∧ bare.sheet.content n = .declaration decl.withoutMarks
  room : sheet.size ≤ full.sheet.size
  kinds : ∀ n < sheet.size, full.sheet.kind n = sheet.kind n
  options : Alike bare.options full.options
  map : bare.map = full.map
  handled : bare.handled = full.handled
  warnings : bare.warnings = full.warnings

/-- What the directives keep in the two runs. -/
structure TwinStores (bare full : State) : Prop where
  ignoreEnd : bare.ignoreEnd = full.ignoreEnd
  saved : List.Forall₂ Alike bare.saved full.saved

/-- Two runs over a sheet of which the first strips more. -/
structure Twins (sheet : Sheet) (dealt : Nat → Prop) (bare full : Run State) : Prop where
  store : TwinStores bare.store full.store
  scene : TwinScenes sheet dealt bare.scene full.scene
  stack : List.Forall₂ (SameEntry sheet) bare.stack full.stack
  pending : bare.pending = full.pending
  flipped : bare.flipped = full.flipped
  flips : bare.flips = full.flips

theorem Alike.refl (options : Options) : Alike options options := ⟨options.clean, rfl, id⟩

/-! ## Scenes -/

section
variable {sheet : Sheet} {dealt : Nat → Prop} {bare full : Scene}

theorem lt_size_of_isMarked {n : Nat} (marked : isMarked sheet n = true) : n < sheet.size := by
  refine Sheet.lt_size_of_content_ne fun root => ?_
  simp [isMarked, Sheet.declaration?, root] at marked

theorem TwinScenes.kind_eq (twins : TwinScenes sheet dealt bare full) (n : Nat) : bare.sheet.kind n = full.sheet.kind n := by
  obtain ⟨gone, stripped⟩ := twins.stripped
  exact stripped.kind n

/-- A node says the same in both scenes, or it is a declaration that has lost its marks in the first. -/
theorem TwinScenes.content_cases (twins : TwinScenes sheet dealt bare full) (n : Nat) :
    bare.sheet.content n = full.sheet.content n ∨
      ∃ decl, full.sheet.content n = .declaration decl ∧ bare.sheet.content n = .declaration decl.withoutMarks := by
  obtain ⟨gone, stripped⟩ := twins.stripped
  by_cases marked : isMarked sheet n = true ∧ dealt n
  · exact twins.marks n marked
  · exact .inl (stripped.content n marked)

theorem TwinScenes.content_eq (twins : TwinScenes sheet dealt bare full) {n : Nat} (other : full.sheet.kind n ≠ .declaration) :
    bare.sheet.content n = full.sheet.content n := by
  rcases twins.content_cases n with same | ⟨decl, content, _⟩
  · exact same
  · exact absurd (congrArg Content.kind content) other

theorem TwinScenes.selector?_eq (twins : TwinScenes sheet dealt bare full) (n : Nat) :
    bare.sheet.selector? n = full.sheet.selector? n := by
  rcases twins.content_cases n with same | ⟨decl, content, without⟩
  · simp only [Sheet.selector?, same]
  · simp only [Sheet.selector?, content, without]

theorem TwinScenes.params?_eq (twins : TwinScenes sheet dealt bare full) (n : Nat) :
    bare.sheet.params? n = full.sheet.params? n := by
  rcases twins.content_cases n with same | ⟨decl, content, without⟩
  · simp only [Sheet.params?, same]
  · simp only [Sheet.params?, content, without]

theorem TwinScenes.property_eq (twins : TwinScenes sheet dealt bare full) (n : Nat) :
    (bare.sheet.declaration? n).map (·.property) = (full.sheet.declaration? n).map (·.property) := by
  rcases twins.content_cases n with same | ⟨decl, content, without⟩
  · simp only [Sheet.declaration?, same]
  · simp only [Sheet.declaration?, content, without, Option.map_some, Declaration.property_withoutMarks]

theorem content_setContent_eq (sheet : Sheet) (c n : Nat) (content : Content) :
    (sheet.setContent c content).content n = if n = c ∧ c < sheet.size then content else sheet.content n := by
  by_cases inside : c < sheet.size
  · by_cases own : n = c
    · rw [if_pos ⟨own, inside⟩, own, Sheet.content_setContent inside]
    · rw [if_neg fun both => own both.1]
      simp only [Sheet.content, Sheet.node, Sheet.setContent, Sheet.getElem?_modify, if_neg (Ne.symm own)]
  · rw [if_neg fun both => inside both.2]
    by_cases own : n = c
    · simp [Sheet.content, Sheet.node, Sheet.setContent, Sheet.getElem?_modify, own,
        Array.getElem?_eq_none (Nat.le_of_not_lt inside)]
    · simp only [Sheet.content, Sheet.node, Sheet.setContent, Sheet.getElem?_modify, if_neg (Ne.symm own)]

/-- A node may get other content of its kind in both scenes, the same one or one that differs by its marks. -/
theorem TwinScenes.setContents (twins : TwinScenes sheet dealt bare full) {c : Nat} {one two : Content}
    (kind : two.kind = full.sheet.kind c)
    (alike : one = two ∨ (isMarked sheet c = true ∧ dealt c) ∧
      ∃ decl, two = .declaration decl ∧ one = .declaration decl.withoutMarks) :
    TwinScenes sheet dealt { bare with sheet := bare.sheet.setContent c one }
      { full with sheet := full.sheet.setContent c two } := by
  obtain ⟨gone, stripped⟩ := twins.stripped
  have kinds : one.kind = two.kind := by
    rcases alike with rfl | ⟨_, decl, rfl, rfl⟩ <;> rfl
  have first : (full.sheet.setContent c two).Similar full.sheet := .setContent kind
  have second : (bare.sheet.setContent c one).Similar bare.sheet :=
    .setContent (kinds.trans (kind.trans (stripped.kind c).symm))
  refine ⟨⟨gone, stripped.similar first second ?_⟩, ?_, ?_, ?_, twins.options, twins.map, twins.handled, twins.warnings⟩
  · intro n unmarked
    rw [content_setContent_eq, content_setContent_eq, stripped.size, stripped.content n unmarked]
    split
    · rename_i own
      rcases alike with same | ⟨marked, _⟩
      · exact same
      · exact absurd (own.1 ▸ marked) unmarked
    · rfl
  · intro n marked
    simp only [content_setContent_eq, stripped.size]
    split
    · rcases alike with same | ⟨_, decl, content, without⟩
      · exact .inl same
      · exact .inr ⟨decl, content, without⟩
    · exact twins.marks n marked
  · rw [first.size]
    exact twins.room
  · intro n inside
    rw [first.kind]
    exact twins.kinds n inside

theorem TwinScenes.setSelector (twins : TwinScenes sheet dealt bare full) (c : Nat) (selector : Text) :
    TwinScenes sheet dealt { bare with sheet := bare.sheet.setSelector c selector }
      { full with sheet := full.sheet.setSelector c selector } := by
  unfold Sheet.setSelector
  rcases twins.content_cases c with same | ⟨decl, content, without⟩
  · rw [same]
    cases content : full.sheet.content c with
    | rule old => exact twins.setContents (by rw [Sheet.kind, content]; rfl) (.inl rfl)
    | _ => exact twins
  · rw [content, without]
    exact twins

theorem TwinScenes.setParams (twins : TwinScenes sheet dealt bare full) {c : Nat} {params : Text}
    (found : full.sheet.params? c = some params) (flipped : Text) :
    TwinScenes sheet dealt { bare with sheet := bare.sheet.setParams c flipped }
      { full with sheet := full.sheet.setParams c flipped } := by
  unfold Sheet.params? at found
  split at found
  · rename_i content
    unfold Sheet.setParams
    rw [twins.content_eq (by rw [Sheet.kind, content]; simp [Content.kind]), content]
    exact twins.setContents (by rw [Sheet.kind, content]; rfl) (.inl rfl)
  · cases found

theorem TwinScenes.remove (twins : TwinScenes sheet dealt bare full) (n : Nat) :
    TwinScenes sheet dealt { bare with sheet := bare.sheet.remove n } { full with sheet := full.sheet.remove n } := by
  obtain ⟨gone, stripped⟩ := twins.stripped
  refine ⟨⟨gone, stripped.remove n⟩, ?_, ?_, ?_, twins.options, twins.map, twins.handled, twins.warnings⟩
  · simp only [Sheet.content_remove]
    exact twins.marks
  · rw [Sheet.size_remove]
    exact twins.room
  · simp only [Sheet.kind, Sheet.content_remove]
    exact twins.kinds

/-- The first scene may lose one comment more. -/
theorem TwinScenes.strip (twins : TwinScenes sheet dealt bare full) {n : Nat} (comment : sheet.kind n = .comment) :
    TwinScenes sheet dealt { bare with sheet := bare.sheet.remove n } full := by
  obtain ⟨gone, stripped⟩ := twins.stripped
  have inside : n < sheet.size := Sheet.lt_size_of_content_ne fun root => by rw [Sheet.kind, root] at comment; cases comment
  refine { twins with stripped := ⟨n :: gone, stripped.strip ((twins.kinds n inside).trans comment)⟩, marks := ?_ }
  simp only [Sheet.content_remove]
  exact twins.marks

theorem TwinScenes.warn (twins : TwinScenes sheet dealt bare full) (kind : WarningKind) (node : NodeId) (message : Text) :
    TwinScenes sheet dealt (bare.warn kind node message) (full.warn kind node message) :=
  { twins with warnings := by simp only [Scene.warn, twins.warnings] }

theorem TwinScenes.markHandled (twins : TwinScenes sheet dealt bare full) (n : NodeId) :
    TwinScenes sheet dealt (bare.markHandled n) (full.markHandled n) := by
  unfold Scene.markHandled
  rw [twins.handled]
  split
  · exact twins
  · exact { twins with handled := rfl }

/-- The same items may come in before a node in both scenes, unless it stands in the second one only. -/
theorem TwinScenes.graft (twins : TwinScenes sheet dealt bare full) {c : Nat}
    (stands : bare.sheet.parent c = none → full.sheet.parent c = none)
    (descends : ∀ above : Nat, full.sheet.parent c = some above → above < full.sheet.size) (items : List Item) :
    TwinScenes sheet dealt
      ((bare.sheet.insertItemsBefore c items).2.foldl Scene.markHandled
        { bare with sheet := (bare.sheet.insertItemsBefore c items).1 })
      ((full.sheet.insertItemsBefore c items).2.foldl Scene.markHandled
        { full with sheet := (full.sheet.insertItemsBefore c items).1 }) := by
  obtain ⟨gone, stripped⟩ := twins.stripped
  have both : c ∈ gone → full.sheet.parent c = none := fun cut => stands (by rw [stripped.parent, if_pos cut])
  obtain ⟨inserted, numbers⟩ := stripped.insertItemsBefore both descends items
  have one := Sheet.Spread.insertItemsBefore bare.sheet c items
  have two := Sheet.Spread.insertItemsBefore full.sheet c items
  have placed : TwinScenes sheet dealt { bare with sheet := (bare.sheet.insertItemsBefore c items).1 }
      { full with sheet := (full.sheet.insertItemsBefore c items).1 } := by
    refine ⟨⟨gone, inserted⟩, ?_, Nat.le_trans twins.room two.size, ?_, twins.options, twins.map, twins.handled, twins.warnings⟩
    · intro n marked
      have old : n < full.sheet.size := Nat.lt_of_lt_of_le (lt_size_of_isMarked marked.1) twins.room
      simp only [one.content n (by rw [stripped.size]; exact old), two.content n old]
      exact twins.marks n marked
    · intro n inside
      simp only [Sheet.kind, two.content n (Nat.lt_of_lt_of_le inside twins.room)]
      exact twins.kinds n inside
  rw [numbers]
  generalize (full.sheet.insertItemsBefore c items).2 = nodes
  generalize ({ bare with sheet := (bare.sheet.insertItemsBefore c items).1 } : Scene) = bare at placed ⊢
  generalize ({ full with sheet := (full.sheet.insertItemsBefore c items).1 } : Scene) = full at placed ⊢
  clear one two stripped inserted numbers twins stands both descends
  induction nodes generalizing bare full with
  | nil => exact placed
  | cons first rest ih => exact ih _ _ (placed.markHandled first)

theorem TwinScenes.adopt (twins : TwinScenes sheet dealt bare full) {one two : Options} (alike : Alike one two) (node : NodeId) :
    TwinScenes sheet dealt ((bare.adopt? one).getD (warnOptions bare node)) ((full.adopt? two).getD (warnOptions full node)) := by
  obtain ⟨clean, rfl, order⟩ := alike
  unfold Scene.adopt?
  have same : ({ two with clean := clean } : Options).fault? = two.fault? := rfl
  rw [same]
  split
  · exact twins.warn _ _ _
  · exact { twins with options := ⟨clean, rfl, order⟩, map := rfl }

end

/-! ## Handlers -/

section
variable {sheet : Sheet} {whole : Item} {allowed : Option Nat → Prop} {dealt : Nat → Prop} {c : Nat}
  {earlier before : List (OpenDirective State)} {bare full : Run State} {one two : Invocation}

theorem enter_ignore (slot : Slot State State) : (ignore slot).enter = enterIgnore slot := rfl

theorem leave_ignore (slot : Slot State State) : (ignore slot).leave = leaveIgnore slot := rfl

theorem enter_rename : (rename : Control State).enter = enterRename := rfl

theorem enter_raw : (raw : Control State).enter = enterRaw := rfl

theorem enter_options (slot : Slot State State) : (options slot).enter = enterOptions slot := rfl

theorem leave_options (slot : Slot State State) : (options slot).leave = leaveOptions slot := rfl

theorem SameForm.fields (same : SameForm one two) :
    one.name = two.name ∧ one.opens = two.opens ∧ one.closes = two.closes ∧ one.source = two.source := by
  obtain ⟨preserve, rfl, _⟩ := same
  exact ⟨rfl, rfl, rfl, rfl⟩

theorem Twins.handle (twins : Twins sheet dealt bare full) {first second : State} {scene other : Scene}
    (stores : TwinStores first second) (scenes : TwinScenes sheet dealt scene other) :
    Twins sheet dealt { bare with store := first, scene := scene } { full with store := second, scene := other } :=
  { twins with store := stores, scene := scenes }

theorem Twins.setSheet (twins : Twins sheet dealt bare full) {first second : Sheet}
    (scenes : TwinScenes sheet dealt { bare.scene with sheet := first } { full.scene with sheet := second }) :
    Twins sheet dealt (bare.setSheet first) (full.setSheet second) :=
  twins.handle twins.store scenes

theorem Twins.warn (twins : Twins sheet dealt bare full) (kind : WarningKind) (node : NodeId) (message : Text) :
    Twins sheet dealt (bare.warn kind node message) (full.warn kind node message) :=
  twins.handle twins.store (twins.scene.warn kind node message)

/-- The two runs enter a directive with the same answer, if a node before which nodes come in stands in both or in neither. -/
theorem Twins.enter (holds : sheet.Holds whole) (inside : c < sheet.size) (first : During sheet allowed c earlier bare)
    (second : During sheet allowed c before full) (twins : Twins sheet dealt bare full) {control : Control State}
    (member : control ∈ (plugin (.whole State)).controls) (same : SameForm one two)
    (stands : control.name = "raw".toList → bare.scene.sheet.parent c = none → full.scene.sheet.parent c = none) :
    (bare.call (control.enter c one)).1 = (full.call (control.enter c two)).1 ∧
      Twins sheet dealt (bare.call (control.enter c one)).2 (full.call (control.enter c two)).2 := by
  obtain ⟨preserve, rfl, order⟩ := same
  obtain rfl | rfl | rfl | rfl | rfl := control_cases member
  · -- `ignore` reads the comment and what lies below the node, which are as they were in both runs.
    simp only [enter_ignore, Run.call, enterIgnore, first.comment, second.comment, true_and]
    refine twins.handle ?_ twins.scene
    simp only [Slot.whole, id, twins.store.ignoreEnd, first.lastBelow_eq holds inside, second.lastBelow_eq holds inside,
      Invocation.opensAndCloses]
    split
    · exact ⟨rfl, twins.store.saved⟩
    · exact twins.store
  · simp only [enter_rename, Run.call, enterRename, twins.scene.selector?_eq]
    cases full.scene.sheet.selector? c with
    | none => exact ⟨rfl, twins⟩
    | some selector =>
      have mirrored : bare.scene.map.apply .selector selector = full.scene.map.apply .selector selector := by rw [twins.scene.map]
      refine ⟨rfl, ?_⟩
      simp only [mirrored]
      exact twins.setSheet (twins.scene.setSelector c _)
  · exact ⟨rfl, twins.setSheet (twins.scene.remove c)⟩
  · simp only [enter_raw, Run.call, enterRaw]
    cases Sheet.parse two.argument with
    | error error => exact ⟨rfl, twins.warn _ _ _⟩
    | ok fragment =>
      refine ⟨rfl, twins.handle twins.store (twins.scene.graft (stands rfl) ?_ _)⟩
      intro above attached
      have := second.descends holds inside (Nat.le_refl c) attached
      have := second.size
      omega
  · simp only [enter_options, Run.call, enterOptions, true_and]
    have stores : TwinStores { bare.store with saved := bare.scene.options :: bare.store.saved }
        { full.store with saved := full.scene.options :: full.store.saved } :=
      ⟨twins.store.ignoreEnd, .cons twins.scene.options twins.store.saved⟩
    refine twins.handle stores ?_
    cases Options.ofText .json two.argument with
    | ok replacing => exact twins.scene.adopt (.refl replacing) c
    | error => exact twins.scene.warn _ _ _

theorem Twins.leave (twins : Twins sheet dealt bare full) {control : Control State}
    (member : control ∈ (plugin (.whole State)).controls) (same : SameForm one two) (node : NodeId) :
    (bare.call (control.leave node one)).1 = (full.call (control.leave node two)).1 ∧
      Twins sheet dealt (bare.call (control.leave node one)).2 (full.call (control.leave node two)).2 := by
  obtain ⟨_, opens, closes, _⟩ := same.fields
  obtain rfl | rfl | rfl | rfl | rfl := control_cases member
  · have ends : (one.opens != one.closes && bare.scene.sheet.kind node == .comment ||
        one.opensAndCloses && ((Slot.whole State).get bare.store).ignoreEnd == some node) =
      (two.opens != two.closes && full.scene.sheet.kind node == .comment ||
        two.opensAndCloses && ((Slot.whole State).get full.store).ignoreEnd == some node) := by
      simp only [Slot.whole, id, Invocation.opensAndCloses, opens, closes, twins.scene.kind_eq, twins.store.ignoreEnd]
    simp only [leave_ignore, Run.call, leaveIgnore, ends]
    split
    · exact ⟨rfl, twins.handle ⟨rfl, twins.store.saved⟩ twins.scene⟩
    · exact ⟨rfl, twins⟩
  · exact ⟨rfl, twins⟩
  · exact ⟨rfl, twins⟩
  · exact ⟨rfl, twins⟩
  · -- What one run has saved, the other has saved as well.
    have saved := twins.store.saved
    simp only [leave_options, Run.call, leaveOptions, Slot.whole, id, opens]
    revert saved
    cases bare.store.saved with
    | nil =>
      intro saved
      rw [List.forall₂_nil_left_iff.mp saved]
      exact ⟨rfl, twins⟩
    | cons first outer =>
      intro saved
      obtain ⟨second, others, alike, rest, split⟩ := List.forall₂_cons_left_iff.mp saved
      rw [split]
      have stores : TwinStores { bare.store with saved := outer } { full.store with saved := others } :=
        ⟨twins.store.ignoreEnd, rest⟩
      cases two.opens with
      | true => exact ⟨rfl, twins.handle stores twins.scene⟩
      | false => exact ⟨rfl, twins.handle stores (twins.scene.adopt alike node)⟩

/-! ## Open directives -/

theorem SameEntry.name_eq {entry other : OpenDirective State} (same : SameEntry sheet entry other) :
    entry.invocation.name = other.invocation.name :=
  same.form.fields.1

theorem SameEntry.source_eq {entry other : OpenDirective State} (same : SameEntry sheet entry other) :
    entry.invocation.source = other.invocation.source :=
  same.form.fields.2.2.2

theorem SameEntry.genuine {entry other : OpenDirective State} (same : SameEntry sheet entry other) (genuine : Genuine other) :
    Genuine entry := by
  obtain ⟨named, opens, _, _⟩ := same.form.fields
  refine ⟨opens.trans genuine.opens, fun control found => ?_⟩
  rw [named]
  exact genuine.control control (same.control ▸ found)

theorem any_source_eq {stack others : List (OpenDirective State)} (row : List.Forall₂ (SameEntry sheet) stack others)
    (source : NodeId) : stack.any (·.invocation.source == source) = others.any (·.invocation.source == source) := by
  induction row with
  | nil => rfl
  | cons same _ ih => rw [List.any_cons, List.any_cons, same.source_eq, ih]

/-- The innermost directives of a name correspond, and so do those around them. -/
theorem lastNamed?_twins {stack others : List (OpenDirective State)} (row : List.Forall₂ (SameEntry sheet) stack others)
    (name : Text) :
    Run.lastNamed? name stack = none ∧ Run.lastNamed? name others = none ∨
      ∃ front entry back front' entry' back', Run.lastNamed? name stack = some (front, entry, back) ∧
        Run.lastNamed? name others = some (front', entry', back') ∧ SameEntry sheet entry entry' ∧
          List.Forall₂ (SameEntry sheet) (front ++ back) (front' ++ back') := by
  induction row with
  | nil => exact .inl ⟨rfl, rfl⟩
  | @cons entry other rest rest' same tail ih =>
    rcases ih with ⟨none, none'⟩ | ⟨front, found, back, front', found', back', inner, inner', alike, around⟩
    · simp only [Run.lastNamed?, none, none', same.name_eq]
      split
      · exact .inr ⟨[], entry, rest, [], other, rest', rfl, rfl, same, tail⟩
      · exact .inl ⟨rfl, rfl⟩
    · simp only [Run.lastNamed?, inner, inner']
      exact .inr ⟨entry :: front, found, back, other :: front', found', back', rfl, rfl, alike, .cons same around⟩

theorem Twins.setStack (twins : Twins sheet dealt bare full) {stack others : List (OpenDirective State)}
    (row : List.Forall₂ (SameEntry sheet) stack others) :
    Twins sheet dealt { bare with stack := stack } { full with stack := others } :=
  { twins with stack := row }

/-- A comment that is stripped in the second run is stripped in the first. -/
theorem Twins.stripSource (twins : Twins sheet dealt bare full) {source : Nat} (comment : sheet.kind source = .comment)
    {preserve keep : Bool} (order : preserve = true → keep = true) :
    Twins sheet dealt (bare.stripSource source preserve) (full.stripSource source keep) := by
  unfold Run.stripSource
  rw [any_source_eq twins.stack source]
  cases full.stack.any (·.invocation.source == source) with
  | true => simpa using twins
  | false =>
    cases preserve with
    | true => simpa [order rfl] using twins
    | false =>
      cases keep with
      | true => exact twins.setSheet (twins.scene.strip comment)
      | false => exact twins.setSheet (twins.scene.remove source)

theorem Twins.endDirective (twins : Twins sheet dealt bare full) {entry other : OpenDirective State}
    (same : SameEntry sheet entry other) {stack others : List (OpenDirective State)}
    (row : List.Forall₂ (SameEntry sheet) stack others) :
    Twins sheet dealt (bare.endDirective entry stack) (full.endDirective other others) := by
  obtain ⟨preserve, form, order⟩ := same.form
  unfold Run.endDirective
  rw [form]
  exact (twins.setStack row).stripSource same.source order

theorem Twins.push (twins : Twins sheet dealt bare full) (same : SameForm one two) (comment : sheet.kind two.source = .comment)
    (control : Option (Control State)) :
    Twins sheet dealt { bare with stack := bare.stack ++ [⟨one, control⟩] }
      { full with stack := full.stack ++ [⟨two, control⟩] } :=
  twins.setStack (List.rel_append twins.stack (.cons ⟨same, rfl, comment⟩ .nil))

/-- An open directive gives both runs the same answers. -/
theorem Twins.ask (holds : sheet.Holds whole) (inside : c < sheet.size)
    (first : During sheet allowed c earlier bare) (second : During sheet allowed c before full)
    (twins : Twins sheet dealt bare full) (kind : Kind)
    {entry other : OpenDirective State} (genuine : Genuine other) (same : SameEntry sheet entry other) :
    (Run.ask c kind entry bare).2 = (Run.ask c kind other full).2 ∧
      Twins sheet dealt (Run.ask c kind entry bare).1 (Run.ask c kind other full).1 := by
  obtain ⟨preserve, form, order⟩ := same.form
  unfold Run.ask
  rw [same.control]
  cases found : other.control with
  | none => exact ⟨rfl, twins⟩
  | some control =>
    obtain ⟨member, _⟩ := genuine.control control found
    by_cases wanted : control.interest.accepts kind = true
    · -- Directives that put nodes in are never asked.
      have never : control.name = "raw".toList → bare.scene.sheet.parent c = none → full.scene.sheet.parent c = none := by
        intro named _
        exfalso
        obtain rfl | rfl | rfl | rfl | rfl := control_cases member
        · exact absurd named (by decide)
        · exact absurd named (by decide)
        · exact absurd named (by decide)
        · cases wanted
        · cases wanted
      obtain ⟨answer, entered⟩ := twins.enter holds inside first second member same.form never
      have closes : entry.invocation.closes = other.invocation.closes := by rw [form]
      simp only [if_pos wanted, closes, answer]
      cases other.invocation.closes with
      | false => exact ⟨rfl, entered⟩
      | true =>
        obtain ⟨closed, left⟩ := entered.leave member same.form c
        exact ⟨Prod.ext rfl closed, left⟩
    · simp only [if_neg wanted, true_and]
      exact twins

/-! ## Forms -/

theorem Twins.passOver (twins : Twins sheet dealt bare full) (name : Text) (same : SameForm one two)
    (comment : sheet.kind two.source = .comment) : Twins sheet dealt (bare.passOver name one) (full.passOver name two) := by
  obtain ⟨named, opens, closes, source⟩ := same.fields
  unfold Run.passOver
  simp only [named, opens, closes, source]
  cases two.opens with
  | true =>
    have warned := twins.warn .disabled two.source
      ("directive \"".toList ++ name ++ '.' :: (two.name ++ "\" is blacklisted.".toList))
    cases two.closes with
    | true => exact warned
    | false => exact warned.push same comment none
  | false =>
    cases two.closes with
    | false => exact twins
    | true =>
      simp only [Bool.false_eq_true, if_false]
      rcases lastNamed?_twins twins.stack two.name with ⟨none, none'⟩ | ⟨_, _, _, _, _, _, found, found', alike, around⟩
      · rw [none, none']
        exact twins
      · rw [found, found']
        exact twins.endDirective alike around

theorem Twins.obeyEnd (genuine : ∀ entry ∈ full.stack, Genuine entry) (twins : Twins sheet dealt bare full)
    (same : SameForm one two) : Twins sheet dealt (bare.obeyEnd one) (full.obeyEnd two) := by
  obtain ⟨named, _, _, source⟩ := same.fields
  unfold Run.obeyEnd
  simp only [named, source]
  rcases lastNamed?_twins twins.stack two.name with
    ⟨none, none'⟩ | ⟨_, entry, _, front, other, back, found, found', alike, around⟩
  · simp only [none, none']
    exact twins.warn _ _ _
  · obtain ⟨split, _⟩ := Run.mem_of_lastNamed? found'
    have known := genuine other (by rw [split]; simp)
    simp only [found, found', alike.control]
    cases asked : other.control with
    | none => exact twins.endDirective alike around
    | some control =>
      obtain ⟨closed, left⟩ := twins.leave (known.control control asked).1 same two.source
      simp only [closed]
      split
      · exact left.endDirective alike around
      · exact left

theorem Twins.completes (holds : sheet.Holds whole) (inside : c < sheet.size) (first : During sheet allowed c earlier bare)
    (second : During sheet allowed c before full) (twins : Twins sheet dealt bare full) {control : Control State}
    (member : control ∈ (plugin (.whole State)).controls) (same : SameForm one two) (source : two.source = c)
    (stands : control.name = "raw".toList → bare.scene.sheet.parent c = none → full.scene.sheet.parent c = none) :
    (bare.completes control one).1 = (full.completes control two).1 ∧
      Twins sheet dealt (bare.completes control one).2 (full.completes control two).2 := by
  obtain ⟨answer, entered⟩ := twins.enter holds inside first second member same stands
  obtain ⟨_, _, closes, place⟩ := same.fields
  unfold Run.completes
  simp only [place, source, closes, answer]
  split
  · split
    · exact entered.leave member same c
    · exact ⟨rfl, entered⟩
  · exact ⟨rfl, twins⟩

theorem Alike.lookup_eq {inForce others : Options} (alike : Alike inForce others) (options : Options) (name : Text) :
    (engine options).registry.lookup inForce name = (engine options).registry.lookup others name := by
  obtain ⟨clean, rfl, _⟩ := alike
  rfl

theorem Alike.enabled_of_found {inForce others options : Options} (alike : Alike inForce others) {name : Text}
    {control : Control State} (found : (engine options).registry.lookup others name = .found control) :
    inForce.disables pluginName name = false := by
  rw [← alike.lookup_eq] at found
  change Registry.lookupIn inForce name [plugin (.whole State)] = .found control at found
  simp only [Registry.lookupIn] at found
  split at found
  · cases found
  · rename_i enabled
    exact Bool.eq_false_of_not_eq_true enabled

/-- The two runs obey a form with the same outcome, if the comment of a form that puts nodes in stands in both or in
neither. -/
theorem Twins.obey (holds : sheet.Holds whole) (inside : c < sheet.size) (options : Options)
    (first : During sheet allowed c earlier bare) (second : During sheet allowed c before full)
    (twins : Twins sheet dealt bare full) (same : SameForm one two) (source : two.source = c) (comment : sheet.kind c = .comment)
    (stands : two.opens = true → two.name = "raw".toList → bare.scene.options.disables pluginName two.name = false →
      bare.scene.sheet.parent c = none → full.scene.sheet.parent c = none) :
    (Run.obey (engine options).registry bare one).1 = (Run.obey (engine options).registry full two).1 ∧
      Twins sheet dealt (Run.obey (engine options).registry bare one).2 (Run.obey (engine options).registry full two).2 := by
  obtain ⟨called, opened, _, place⟩ := same.fields
  unfold Run.obey
  simp only [called, opened, place, twins.scene.options.lookup_eq]
  cases found : (engine options).registry.lookup full.scene.options two.name with
  | disabled name =>
    obtain ⟨preserve, rfl, order⟩ := same
    exact ⟨rfl, twins.passOver name ⟨preserve, rfl, order⟩ (source ▸ comment)⟩
  | missing => exact ⟨rfl, twins.warn _ _ _⟩
  | found control =>
    obtain ⟨member, named⟩ := of_lookup_eq_found found
    by_cases opens : two.opens = true
    · obtain ⟨done, completed⟩ := twins.completes holds inside first second member same source
        fun raw => stands opens (named ▸ raw) (twins.scene.options.enabled_of_found found)
      simp only [if_pos opens, done]
      split
      · exact ⟨rfl, completed⟩
      · exact ⟨rfl, completed.push same (source ▸ comment) (some control)⟩
    · simp only [if_neg opens, true_and]
      exact twins.obeyEnd (fun entry member => (second.stack entry member).2) same

/-! ## Declarations and params -/

theorem Twins.flipParams (twins : Twins sheet dealt bare full) (c : Nat) :
    Twins sheet dealt (bare.flipParams c) (full.flipParams c) := by
  have params : bare.scene.sheet.params? c = full.scene.sheet.params? c := twins.scene.params?_eq c
  obtain ⟨clean, same, _⟩ := twins.scene.options
  unfold Run.flipParams
  simp only [same, params, twins.scene.map]
  split
  · split
    · rename_i found
      exact twins.setSheet (twins.scene.setParams found _)
    · exact twins
  · exact twins

theorem Twins.countFlip (twins : Twins sheet dealt bare full) : Twins sheet dealt bare.countFlip full.countFlip :=
  { twins with
    flipped := congrArg (· + 1) twins.flipped
    flips := congrArg (· + 1) twins.flips }

/-- A declaration is dealt with in the same way by both runs, except that its marks may be stripped in the first alone. -/
theorem Twins.flipValue (twins : Twins sheet dealt bare full) (options : Options) {decl : Declaration}
    (read : sheet.content c = .declaration decl) (here : bare.scene.sheet.content c = .declaration decl)
    (there : full.scene.sheet.content c = .declaration decl) (allowed : dealt c) :
    Twins sheet dealt (Run.flipValue (engine options).registry bare c) (Run.flipValue (engine options).registry full c) := by
  have kind : ∀ written : Declaration, (Content.declaration written).kind = full.scene.sheet.kind c := by
    intro written
    rw [Sheet.kind, there]
    rfl
  obtain ⟨clean, same, order⟩ := twins.scene.options
  cases plain : isPlain (.declaration decl) with
  | false =>
    have marked : isMarked sheet c = true := by simp [isMarked, Sheet.declaration?, read, plain]
    obtain ⟨changed, _, acts⟩ := exists_obeyMarks_eq plain
    simp only [Run.flipValue, acts options bare c here, acts options full c there, if_true]
    refine (twins.setSheet (twins.scene.setContents (kind _) ?_)).countFlip
    rw [same]
    cases clean with
    | false =>
      cases strips : full.scene.options.clean with
      | false => exact .inl rfl
      | true => exact absurd (order strips) Bool.false_ne_true
    | true =>
      cases full.scene.options.clean with
      | false => exact .inr ⟨⟨marked, allowed⟩, changed, rfl, rfl⟩
      | true => exact .inl rfl
  | true =>
    have unmarked : ∀ run : Run State, run.scene.sheet.content c = .declaration decl →
        Run.obeyMarks (engine options).registry run c = (false, run) :=
      fun run content => obeyMarks_of_isPlain (by rw [content, plain])
    have found : ∀ run : Run State, run.scene.sheet.content c = .declaration decl →
        run.scene.sheet.declaration? c = some decl :=
      fun run content => by simp only [Sheet.declaration?, content]
    have first : Run.flipByRule (engine options).registry bare c = _ :=
      flipByRule_eq (rfl : bare.scene.options = _) (found bare here)
    have second : Run.flipByRule (engine options).registry full c = _ :=
      flipByRule_eq (rfl : full.scene.options = _) (found full there)
    have flipped : flipped? bare.scene.options decl = flipped? full.scene.options decl := by rw [same]; rfl
    simp only [Run.flipValue, unmarked bare here, unmarked full there, Bool.false_eq_true, if_false, first, second, flipped]
    split
    · exact twins
    · exact (twins.setSheet (twins.scene.setContents (kind _) (.inl rfl))).countFlip

theorem Twins.renameRule (twins : Twins sheet dealt bare full) (rule : Nat) (selector : Text) :
    Twins sheet dealt (bare.renameRule rule selector) (full.renameRule rule selector) := by
  obtain ⟨clean, same, _⟩ := twins.scene.options
  unfold Run.renameRule
  simp only [same, twins.scene.map, twins.pending]
  split
  · split
    · rename_i waiting pair found
      have paired := twins.setSheet
        ((twins.scene.setSelector pair selector).setSelector rule (full.scene.map.apply .selector selector))
      exact { paired with pending := rfl }
    · exact { twins with pending := rfl }
  · split
    · exact twins
    · exact twins.setSheet (twins.scene.setSelector rule _)

/-- Comments do not count among the declarations of a rule. -/
theorem Twins.renameAround (twins : Twins sheet dealt bare full) (other : full.scene.sheet.kind c ≠ .comment) :
    Twins sheet dealt (bare.renameAround c) (full.renameAround c) := by
  obtain ⟨gone, stripped⟩ := twins.scene.stripped
  obtain ⟨clean, same, _⟩ := twins.scene.options
  unfold Run.renameAround
  simp only [same, twins.flipped, stripped.parent_eq other, twins.scene.selector?_eq, stripped.isFinalOfKind_eq other]
  split
  · exact twins
  · split
    · exact twins
    · split
      · exact twins
      · split
        · exact twins.renameRule _ _
        · exact twins

theorem map_warning_eq {stack others : List (OpenDirective State)} (row : List.Forall₂ (SameEntry sheet) stack others)
    (warning : NodeId → Text → Warning) :
    stack.map (fun entry => warning entry.invocation.source entry.invocation.name) =
      others.map fun entry => warning entry.invocation.source entry.invocation.name := by
  induction row with
  | nil => rfl
  | cons same _ ih => rw [List.map_cons, List.map_cons, same.source_eq, same.name_eq, ih]

theorem Twins.report_eq (twins : Twins sheet dealt bare full) : bare.report = full.report := by
  simp only [Run.report, twins.scene.warnings, twins.pending, twins.flips]
  rw [map_warning_eq twins.stack fun source name =>
    { kind := .stillOpen, node := source, message := "unclosed directive \"".toList ++ name ++ "\".".toList }]

end
end StyleFlip.Standard
