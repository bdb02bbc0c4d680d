import StyleFlip.Proofs.Marks
import StyleFlip.Proofs.ValueMarks

/-!
What the value directives make of a declaration with one mark. The first directive that can read the body of the mark deals with
the declaration (`flipDeclaration_of_names`, `flipDeclaration_of_nameless`), and then the mark is stripped. For a mark in the
value this says what the value becomes, directive by directive (`flipDeclaration_of_value_mark`). A mark in the importance
marker acts on the value as well, except that `insert` looks for its mark in the value alone (`ImportanceMark.flip_insert`).
-/
namespace StyleFlip

namespace Declaration
variable {decl : Declaration}

@[simp] theorem withWritten_withWritten (decl : Declaration) (first second : Text) :
    (decl.withWritten first).withWritten second = decl.withWritten second := by
  simp only [withWritten]
  split <;> split <;> rfl

/-- The spacing behind the colon has no star, and so no mark. -/
def Spaced (decl : Declaration) : Prop := '*' ∉ decl.between.dropWhile (· != ':')

instance (decl : Declaration) : Decidable decl.Spaced := inferInstanceAs (Decidable ('*' ∉ _))

theorem Spaced.withoutMarks (spaced : decl.Spaced) :
    decl.withoutMarks =
      { (if Directive.hasMark decl.written then decl.withWritten (Text.trim (Directive.withoutMarks decl.written)) else decl)
        with important := decl.important.map Directive.withoutMarks } := by
  simp only [Declaration.withoutMarks, Directive.withoutMarks_of_colon spaced]
  split
  · simp only [important_withWritten]
  · rfl

theorem Spaced.withWritten (spaced : decl.Spaced) (raw : Text) : (decl.withWritten raw).Spaced := by
  rwa [Spaced, between_withWritten]

/-- Directives look for marks in the value and in what stands around it. -/
theorem Spaced.markText (spaced : decl.Spaced) :
    ∃ front, '*' ∉ front ∧ decl.markText = front ++ decl.written ++ decl.important.getD [] := by
  refine ⟨_, ?_, rfl⟩
  rw [Text.cut?_singleton]
  by_cases colon : ':' ∈ decl.between
  · rw [if_pos colon]
    exact fun member => spaced (List.mem_of_mem_tail ((Text.trim_isInfix _).subset member))
  · rw [if_neg colon]
    exact List.not_mem_nil

theorem map_withoutMarks_of_starless {important : Option Text} (free : '*' ∉ important.getD []) :
    important.map Directive.withoutMarks = important := by
  cases important with
  | none => rfl
  | some text =>
    have free : '*' ∉ text := free
    rw [Option.map_some, Directive.withoutMarks_of_starless free]

/-- A mark in the value goes, with the blanks around what is left. -/
theorem Spaced.withoutMarks_of_written (spaced : decl.Spaced) (important : '*' ∉ decl.important.getD [])
    {token : Directive.Token} {before behind : Text} (front : '*' ∉ before) (back : '*' ∉ behind)
    (written : decl.written = before ++ token.text ++ behind) :
    decl.withoutMarks = decl.withWritten (Text.trim (Text.trimEnd before ++ behind)) := by
  have kept := (important_withWritten decl (Text.trim (Text.trimEnd before ++ behind))).symm
  rw [spaced.withoutMarks, written, token.hasMark_eq_true front back, if_pos rfl, token.withoutMarks_eq front back,
    map_withoutMarks_of_starless important, kept]

theorem Spaced.withoutMarks_of_starless (spaced : decl.Spaced) (written : '*' ∉ decl.written) :
    decl.withoutMarks = { decl with important := decl.important.map Directive.withoutMarks } := by
  rw [spaced.withoutMarks, Directive.hasMark_eq_false written, if_neg Bool.false_ne_true]

end Declaration

namespace Standard
open Text Directive

/-- The names of the standard value directives that have one. -/
def markNames : List Text := ["ignore".toList, "prepend".toList, "append".toList, "insert".toList]

theorem apart_of_mem_markNames {name other : Text} (first : name ∈ markNames) (second : other ∈ markNames)
    (differ : name ≠ other) : Apart name other := by
  have all : (markNames.all fun name => markNames.all fun other => name == other || decide (Apart name other)) = true := by
    decide +kernel
  have checked := List.all_eq_true.mp (List.all_eq_true.mp all name first) other second
  simpa [differ] using checked

/-- The run after a declaration was rewritten by a value directive. -/
def rewritten (run : Run State) (node : NodeId) (decl : Declaration) : Run State :=
  (run.setSheet (run.scene.sheet.setContent node (.declaration decl))).countFlip

section
variable {registry : Registry State} {run : Run State} {node : NodeId} {decl : Declaration}

/-- The first value directive that finds its mark deals with the declaration, and then marks are stripped. -/
theorem flipDeclaration_of_rule {skipped later : List (MarkRule State)} {rule : MarkRule State} {changed : Declaration}
    (content : run.scene.sheet.content node = .declaration decl) (clean : run.scene.options.clean = true)
    (listed : registry.marks = skipped ++ rule :: later)
    (others : ∀ rule ∈ skipped, findMark? rule.name decl.markText = none)
    (found : (findMark? rule.name decl.markText).isSome = true)
    (acts : run.call (rule.act node) = (true, run.setSheet (run.scene.sheet.setContent node (.declaration changed)))) :
    Run.flipDeclaration registry run node = rewritten run node changed.withoutMarks := by
  have inside : node < run.scene.sheet.size := Sheet.lt_size_of_content_ne (by rw [content]; simp)
  have obeyed : Run.obeyMarksFrom node decl.markText (skipped ++ rule :: later) run =
      (true, rewritten run node changed.withoutMarks) := by
    clear listed
    induction skipped with
    | nil =>
      rw [List.nil_append, Run.obeyMarksFrom, if_pos found, acts]
      simp only [Run.setSheet, clean, if_true, Scene.modifyDeclaration, Sheet.modifyDeclaration, Sheet.content_setContent inside,
        Sheet.setContent_setContent, rewritten]
    | cons other skipped ih =>
      obtain ⟨here, rest⟩ := List.forall_mem_cons.mp others
      rw [List.cons_append, Run.obeyMarksFrom, here]
      exact ih rest
  have dealt : Run.obeyMarks registry run node = (true, rewritten run node changed.withoutMarks) := by
    simp only [Run.obeyMarks, Sheet.declaration?, content, holds_of_findMark? found, if_true, listed, obeyed]
  -- One flip has been counted, so no selector is exchanged.
  have flips : 0 < (rewritten run node changed.withoutMarks).flipped := Nat.succ_pos _
  simp [Run.flipDeclaration, dealt, Run.renameAround, flips]

variable {token : Token}

/-- The text in which directives look for their marks has one mark, and no stars besides. -/
structure Marked (decl : Declaration) (token : Token) : Prop where
  exists_around : ∃ front back, decl.markText = front ++ token.text ++ back ∧ '*' ∉ front ∧ '*' ∉ back

theorem Marked.findMark?_eq (marked : Marked decl token) {name : Text} (starless : '*' ∉ name.map fold) :
    (findMark? name decl.markText).map Mark.argument = argumentIn? name token.body := by
  obtain ⟨front, back, whole, before, behind⟩ := marked.exists_around
  rw [whole, token.findMark?_eq starless before behind, Option.map_map]
  cases argumentIn? name token.body <;> rfl

theorem Marked.argument?_eq (marked : Marked decl token) {name : Text} (starless : '*' ∉ name.map fold) :
    argument? name decl = (argumentIn? name token.body).map fun argument => argument.getD [] := by
  rw [argument?, ← marked.findMark?_eq starless, Option.map_map]
  rfl

theorem Marked.isSome_findMark? (marked : Marked decl token) {name : Text} (starless : '*' ∉ name.map fold) :
    (findMark? name decl.markText).isSome = (argumentIn? name token.body).isSome := by
  rw [← marked.findMark?_eq starless, Option.isSome_map]

theorem ne_nil_of_mem_markNames {name : Text} (known : name ∈ markNames) : name ≠ [] := by
  rintro rfl
  exact absurd known (by decide)

theorem starless_of_mem_markNames {name : Text} (known : name ∈ markNames) : '*' ∉ name.map fold := by
  have all : (markNames.all fun name => !(name.map fold).contains '*') = true := by decide +kernel
  simpa using List.all_eq_true.mp all name known

variable (standard : registry.marks = (plugin (.whole State)).marks)
  (content : run.scene.sheet.content node = .declaration decl) (clean : run.scene.options.clean = true)
  (marked : Marked decl token)
include standard content clean marked

/-- A directive whose name stands in the mark deals with the declaration. -/
theorem flipDeclaration_of_names (skipped later : List (MarkRule State)) {rule : MarkRule State} {argument : Option Text}
    (names : Names rule.name token.body argument) (listed : (plugin (.whole State)).marks = skipped ++ rule :: later)
    (known : rule.name ∈ markNames)
    (others : (skipped.all fun other => markNames.contains other.name && other.name != rule.name) = true)
    {changed : Declaration} (acts : argument? rule.name decl = some (argument.getD []) →
      run.call (rule.act node) = (true, run.setSheet (run.scene.sheet.setContent node (.declaration changed)))) :
    Run.flipDeclaration registry run node = rewritten run node changed.withoutMarks := by
  have starless := starless_of_mem_markNames known
  have read := (argumentIn?_eq_some_iff (ne_nil_of_mem_markNames known)).mpr names
  refine flipDeclaration_of_rule content clean (standard.trans listed) (fun other member => ?_) ?_ (acts ?_)
  · have checked := List.all_eq_true.mp others other member
    simp only [Bool.and_eq_true, List.contains_iff_mem, bne_iff_ne] at checked
    obtain ⟨listed, differs⟩ := checked
    rw [← Option.isNone_iff_eq_none, ← Option.not_isSome, marked.isSome_findMark? (starless_of_mem_markNames listed),
      names.argumentIn?_eq_none (apart_of_mem_markNames known listed differs.symm)]
    rfl
  · rw [marked.isSome_findMark? starless, read]
    rfl
  · rw [marked.argument?_eq starless, read]
    rfl

/-- A mark that names no directive is for the one without a name. -/
theorem flipDeclaration_of_nameless (nameless : ∀ name ∈ markNames, ∀ argument, ¬ Names name token.body argument)
    {changed : Declaration} (acts : argument? [] decl = some token.body →
      run.call (replace.act node) = (true, run.setSheet (run.scene.sheet.setContent node (.declaration changed)))) :
    Run.flipDeclaration registry run node = rewritten run node changed.withoutMarks := by
  have listed : (plugin (.whole State)).marks = [keepValue, prepend, append, insert] ++ replace :: [] := rfl
  have known : ∀ rule ∈ ([keepValue, prepend, append, insert] : List (MarkRule State)), rule.name ∈ markNames :=
    fun rule member => List.mem_map_of_mem member
  refine flipDeclaration_of_rule content clean (standard.trans listed) (fun other member => ?_) ?_ (acts ?_)
  · have named := known other member
    have unread : argumentIn? other.name token.body = none := by
      rw [Option.eq_none_iff_forall_ne_some]
      intro argument read
      exact nameless other.name named argument ((argumentIn?_eq_some_iff (ne_nil_of_mem_markNames named)).mp read)
    rw [← Option.isNone_iff_eq_none, ← Option.not_isSome, marked.isSome_findMark? (starless_of_mem_markNames named), unread]
    rfl
  · exact (marked.isSome_findMark? List.not_mem_nil).trans rfl
  · exact (marked.argument?_eq List.not_mem_nil).trans rfl

end

/-! ## A mark in the value -/

/-- A declaration with a mark in its value, and no star in the rest of the value, in the spacing behind the colon or in the
importance marker. -/
structure ValueMark (decl : Declaration) (token : Token) (before behind : Text) : Prop where
  written : decl.written = before ++ token.text ++ behind
  before : '*' ∉ before
  behind : '*' ∉ behind
  spaced : decl.Spaced
  important : '*' ∉ decl.important.getD []

namespace ValueMark
variable {decl : Declaration} {token : Token} {before behind : Text}

theorem marked (mark : ValueMark decl token before behind) : Marked decl token := by
  obtain ⟨front, starless, whole⟩ := mark.spaced.markText
  refine ⟨front ++ before, behind ++ decl.important.getD [], ?_, ?_, ?_⟩
  · rw [whole, mark.written]
    simp only [List.append_assoc]
  · simp [starless, mark.before]
  · simp [mark.behind, mark.important]

theorem withoutMarks_withWritten (mark : ValueMark decl token before behind) {left right : Text} (front : '*' ∉ left)
    (back : '*' ∉ right) :
    (decl.withWritten (left ++ token.text ++ right)).withoutMarks = decl.withWritten (trim (trimEnd left ++ right)) := by
  have spaced := mark.spaced.withWritten (left ++ token.text ++ right)
  have important : '*' ∉ (decl.withWritten (left ++ token.text ++ right)).important.getD [] := by
    rw [Declaration.important_withWritten]
    exact mark.important
  rw [spaced.withoutMarks_of_written important front back (Declaration.written_withWritten _ _),
    Declaration.withWritten_withWritten]

theorem withoutMarks_of_starless (mark : ValueMark decl token before behind) {value : Text} (free : '*' ∉ value) :
    (decl.withWritten value).withoutMarks = decl.withWritten value := by
  have kept := (Declaration.important_withWritten decl value).symm
  have important := mark.important
  rw [kept] at important
  rw [(mark.spaced.withWritten value).withoutMarks_of_starless (by rwa [Declaration.written_withWritten]),
    Declaration.map_withoutMarks_of_starless important]

variable {registry : Registry State} {run : Run State} {node : NodeId} {argument : Option Text}
  (standard : registry.marks = (plugin (.whole State)).marks)
  (content : run.scene.sheet.content node = .declaration decl) (clean : run.scene.options.clean = true)
  (mark : ValueMark decl token before behind)
include standard content clean mark

theorem flip_ignore (names : Names "ignore".toList token.body argument) :
    Run.flipDeclaration registry run node =
      rewritten run node (decl.withWritten (trim (trimEnd before ++ behind))) := by
  rw [← mark.spaced.withoutMarks_of_written mark.important mark.before mark.behind mark.written]
  exact flipDeclaration_of_names standard content clean mark.marked [] [prepend, append, insert, replace] names rfl (by decide) rfl
    fun _ => call_keepValue content

theorem flip_prepend (names : Names "prepend".toList token.body argument) :
    Run.flipDeclaration registry run node =
      rewritten run node (decl.withWritten (trim (trimEnd (argument.getD [] ++ before) ++ behind))) := by
  have free : '*' ∉ argument.getD [] ++ before := by simp [names.starless token.starless, mark.before]
  have whole : argument.getD [] ++ decl.written = argument.getD [] ++ before ++ token.text ++ behind := by
    rw [mark.written]
    simp only [List.append_assoc]
  rw [← mark.withoutMarks_withWritten free mark.behind, ← whole]
  exact flipDeclaration_of_names standard content clean mark.marked [keepValue] [append, insert, replace] names rfl (by decide) rfl
    fun read => call_changing (congrArg (Option.map _) read) content

theorem flip_append (names : Names "append".toList token.body argument) :
    Run.flipDeclaration registry run node =
      rewritten run node (decl.withWritten (trim (trimEnd before ++ behind ++ argument.getD []))) := by
  have free : '*' ∉ behind ++ argument.getD [] := by simp [names.starless token.starless, mark.behind]
  have whole : decl.written ++ argument.getD [] = before ++ token.text ++ (behind ++ argument.getD []) := by
    rw [mark.written]
    simp only [List.append_assoc]
  rw [List.append_assoc, ← mark.withoutMarks_withWritten mark.before free, ← whole]
  exact flipDeclaration_of_names standard content clean mark.marked [keepValue, prepend] [insert, replace] names rfl (by decide) rfl
    fun read => call_changing (congrArg (Option.map _) read) content

theorem flip_insert (names : Names "insert".toList token.body argument) :
    Run.flipDeclaration registry run node =
      rewritten run node (decl.withWritten (before ++ argument.getD [] ++ behind)) := by
  have free : '*' ∉ before ++ argument.getD [] ++ behind := by
    simp [names.starless token.starless, mark.before, mark.behind]
  have read := (argumentIn?_eq_some_iff (by decide)).mpr names
  have found : findMark? "insert".toList decl.written = some ⟨before, token.text, argument, behind⟩ := by
    rw [mark.written, token.findMark?_eq (by decide) mark.before mark.behind, read]
    rfl
  rw [← mark.withoutMarks_of_starless free]
  exact flipDeclaration_of_names standard content clean mark.marked [keepValue, prepend, append] [replace] names rfl (by decide) rfl
    fun _ => call_changing (by simp only [found]) content

theorem flip_replace (nameless : ∀ name ∈ markNames, ∀ argument, ¬ Names name token.body argument) :
    Run.flipDeclaration registry run node = rewritten run node (decl.withWritten (trim token.body)) := by
  have found : findMark? [] decl.written = some ⟨before, token.text, some token.body, behind⟩ := by
    rw [mark.written, token.findMark?_eq (by decide) mark.before mark.behind]
    rfl
  have stripped := mark.withoutMarks_withWritten token.starless (List.not_mem_nil : '*' ∉ ([] : Text))
  rw [List.append_nil, List.append_nil, trim_trimEnd] at stripped
  rw [← stripped]
  exact flipDeclaration_of_nameless standard content clean mark.marked nameless
    fun read => call_changing (by simp only [read, found, Option.map_some]) content

end ValueMark

/-- What becomes of a declaration with one mark in its value, and no other star, where marks are stripped: `ignore` leaves the
rest of the value, `prepend` and `append` put their argument in front of it and behind it, `insert` puts it in the place of the
mark, and the text of any other mark is the new value. Blanks in front of the mark and around the value go, except with `insert`.
One flip is counted and all else stays, whatever the flip rules are. -/
theorem flipDeclaration_of_value_mark {registry : Registry State} (standard : registry.marks = (plugin (.whole State)).marks)
    {run : Run State} {node : NodeId} {decl : Declaration} (content : run.scene.sheet.content node = .declaration decl)
    (clean : run.scene.options.clean = true) {token : Token} {before behind : Text}
    (mark : ValueMark decl token before behind) :
    let becomes := fun value : Text => ∃ after : Declaration, after.written = value ∧ after.property = decl.property ∧
      after.between = decl.between ∧ after.important = decl.important ∧
      Run.flipDeclaration registry run node = (run.setSheet (run.scene.sheet.setContent node (.declaration after))).countFlip
    (∀ argument, Names "ignore".toList token.body argument → becomes (trim (trimEnd before ++ behind))) ∧
    (∀ argument, Names "prepend".toList token.body argument →
      becomes (trim (trimEnd (argument.getD [] ++ before) ++ behind))) ∧
    (∀ argument, Names "append".toList token.body argument →
      becomes (trim (trimEnd before ++ behind ++ argument.getD []))) ∧
    (∀ argument, Names "insert".toList token.body argument → becomes (before ++ argument.getD [] ++ behind)) ∧
    ((∀ name ∈ markNames, ∀ argument, ¬ Names name token.body argument) → becomes (trim token.body)) := by
  intro becomes
  have of_eq : ∀ {value}, Run.flipDeclaration registry run node = rewritten run node (decl.withWritten value) →
      becomes value := fun same => ⟨_, by simp, by simp, by simp, by simp, same⟩
  refine ⟨fun argument names => of_eq ?_, fun argument names => of_eq ?_, fun argument names => of_eq ?_,
    fun argument names => of_eq ?_, fun nameless => of_eq ?_⟩
  · exact mark.flip_ignore standard content clean names
  · exact mark.flip_prepend standard content clean names
  · exact mark.flip_append standard content clean names
  · exact mark.flip_insert standard content clean names
  · exact mark.flip_replace standard content clean nameless

theorem flipDeclaration_of_value_mark_prepend :
    let decl := Declaration.ofValue "left".toList "1px /*! RTL:Prepend:2px */ 3px".toList
    let run : Run State := { store := {}, scene := ⟨⟨#[{ content := .declaration decl }]⟩, {}, default, [], []⟩ }
    ∃ after : Declaration, after.written = "2px 1px 3px".toList ∧
      Run.flipDeclaration (engine {}).registry run 0 =
        (run.setSheet (run.scene.sheet.setContent 0 (.declaration after))).countFlip := by
  intro decl run
  let token : Token :=
    ⟨"!".toList, " ".toList, "RTL:".toList, "Prepend:2px ".toList, .inr rfl, List.all_eq_true.mp rfl, by decide, by decide⟩
  have mark : ValueMark decl token "1px ".toList " 3px".toList :=
    ⟨by decide +kernel, by decide, by decide, by decide +kernel, by decide +kernel⟩
  have names : Names "prepend".toList ("Prepend".toList ++ ':' :: "2px ".toList) (some "2px ".toList) := .argument (by decide)
  obtain ⟨after, written, _, _, _, flipped⟩ :=
    (flipDeclaration_of_value_mark (rfl : (engine {}).registry.marks = _) (rfl : run.scene.sheet.content 0 = _) rfl mark).2.1 _ names
  exact ⟨after, written.trans (by decide), flipped⟩

/-- A name with blanks behind it is still the name: the mark keeps the value, and its text does not become the value. -/
theorem keeps_value_at_spaced_name :
    (markNames.all fun name => "ignore ".toList.map fold != name.map fold &&
      !(name.map fold ++ [':']).isPrefixOf ("ignore ".toList.map fold)) = true ∧
    ∃ sheet, Sheet.parse "a{left:1px /*rtl:ignore */}".toList = .ok sheet ∧
      ((engine {}).flip sheet).1.toText = "a{left:1px}".toList ∧ ((engine {}).flip sheet).2.1 = ⟨[], 1⟩ := by
  refine ⟨by decide +kernel, ?_⟩
  obtain ⟨sheet, parsed, test⟩ := Sheet.exists_of_readable
    (by decide +kernel : (Sheet.parse "a{left:1px /*rtl:ignore */}".toList).toOption.any (fun sheet =>
      ((engine {}).flip sheet).1.toText == "a{left:1px}".toList && ((engine {}).flip sheet).2.1 == ⟨[], 1⟩) = true)
  simp only [Bool.and_eq_true, beq_iff_eq] at test
  exact ⟨sheet, parsed, test.1, test.2⟩

/-! ## A mark in the importance marker -/

/-- A declaration with a mark in its importance marker, and no star in the rest of the marker, in the value or in the spacing
behind the colon. -/
structure ImportanceMark (decl : Declaration) (token : Token) (before behind : Text) : Prop where
  important : decl.important = some (before ++ token.text ++ behind)
  before : '*' ∉ before
  behind : '*' ∉ behind
  spaced : decl.Spaced
  written : '*' ∉ decl.written

namespace ImportanceMark
variable {decl : Declaration} {token : Token} {before behind : Text}

theorem marked (mark : ImportanceMark decl token before behind) : Marked decl token := by
  obtain ⟨front, starless, whole⟩ := mark.spaced.markText
  refine ⟨front ++ decl.written ++ before, behind, ?_, ?_, mark.behind⟩
  · rw [whole, mark.important, Option.getD_some]
    simp only [List.append_assoc]
  · simp [starless, mark.written, mark.before]

/-- The mark goes from the importance marker, whatever the value has become. -/
theorem withoutMarks_eq (mark : ImportanceMark decl token before behind) {changed : Declaration}
    (between : changed.between = decl.between) (important : changed.important = decl.important) (free : '*' ∉ changed.written) :
    changed.withoutMarks = { changed with important := some (trimEnd before ++ behind) } := by
  have spaced : changed.Spaced := by
    rw [Declaration.Spaced, between]
    exact mark.spaced
  rw [spaced.withoutMarks_of_starless free, important, mark.important, Option.map_some,
    token.withoutMarks_eq mark.before mark.behind]

variable {registry : Registry State} {run : Run State} {node : NodeId} {argument : Option Text}
  (standard : registry.marks = (plugin (.whole State)).marks)
  (content : run.scene.sheet.content node = .declaration decl) (clean : run.scene.options.clean = true)
  (mark : ImportanceMark decl token before behind)
include standard content clean mark

theorem flip_prepend (names : Names "prepend".toList token.body argument) :
    Run.flipDeclaration registry run node = rewritten run node (decl.withWritten (argument.getD [] ++ decl.written)).withoutMarks :=
  flipDeclaration_of_names standard content clean mark.marked [keepValue] [append, insert, replace] names rfl (by decide) rfl
    fun read => call_changing (congrArg (Option.map _) read) content

theorem flip_append (names : Names "append".toList token.body argument) :
    Run.flipDeclaration registry run node = rewritten run node (decl.withWritten (decl.written ++ argument.getD [])).withoutMarks :=
  flipDeclaration_of_names standard content clean mark.marked [keepValue, prepend] [insert, replace] names rfl (by decide) rfl
    fun read => call_changing (congrArg (Option.map _) read) content

/-- The argument of `insert` is lost: there is no mark in the value whose place it could take. -/
theorem flip_insert (names : Names "insert".toList token.body argument) :
    Run.flipDeclaration registry run node = rewritten run node (decl.withWritten decl.written).withoutMarks := by
  have absent : findMark? "insert".toList decl.written = none := findMark?_eq_none mark.written _
  exact flipDeclaration_of_names standard content clean mark.marked [keepValue, prepend, append] [replace] names rfl (by decide) rfl
    fun _ => call_changing (by simp only [absent]) content

theorem flip_replace (nameless : ∀ name ∈ markNames, ∀ argument, ¬ Names name token.body argument) :
    Run.flipDeclaration registry run node = rewritten run node (decl.withValue token.body).withoutMarks := by
  have absent : findMark? [] decl.written = none := findMark?_eq_none mark.written _
  exact flipDeclaration_of_nameless standard content clean mark.marked nameless
    fun read => call_changing (by simp only [read, absent, Option.map_some]) content

end ImportanceMark

end Standard
end StyleFlip
