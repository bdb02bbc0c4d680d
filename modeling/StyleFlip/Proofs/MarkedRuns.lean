import StyleFlip.Proofs.Detaching
import StyleFlip.Proofs.FlipCounts
import StyleFlip.Proofs.MarkedValues

/-!
Marks in the run over a sheet. A declaration is as it was read when the gate has let it through (`content_gate`), and behind its
visit nothing changes it any more (`declaration?_foldl_visit`). So what a value directive makes of a declaration with one mark
is what the sheet holds at the end: the text that the mark brings in, wherever the mark stands, except that the argument of an
`insert` in the importance marker is lost (`sole_mark_acts`).
-/
namespace StyleFlip

namespace Sheet

/-! ## What declarations say behind their visits -/

theorem declaration?_setSelector (sheet : Sheet) (id n : Nat) (selector : Text) :
    (sheet.setSelector id selector).declaration? n = sheet.declaration? n := by
  rw [setSelector_eq_modifyContent]
  simp only [declaration?, Sheet.content, Sheet.node, getElem?_modifyContent]
  cases sheet.nodes[n]? with
  | none => rfl
  | some node =>
    by_cases own : n = id
    · simp only [own, if_true, Option.map_some, Option.getD_some]
      cases node.content <;> rfl
    · simp [own]

/-- Edits leave declarations alone at other nodes than the one that is visited. -/
theorem Edit.declaration?_eq {before after : Sheet} {c : Nat} {renames : Prop} (edit : Edit c renames before after) {n : Nat}
    (inside : n < before.size) (elsewhere : n ≠ c) : after.declaration? n = before.declaration? n := by
  cases edit with
  | @rewrite content same plain =>
    simp only [declaration?, Standard.content_setContent_eq, if_neg fun both : n = c ∧ c < before.size => elsewhere both.1]
  | rename allowed selector => exact declaration?_setSelector _ _ _ _
  | cut low => simp only [declaration?, content_remove]
  | graft items => simp only [declaration?, (Spread.insertItemsBefore before c items).content n inside]

theorem declaration?_of_edits {before after : Sheet} {c : Nat} {renames : Prop}
    (edits : Relation.ReflTransGen (Edit c renames) before after) {n : Nat} (inside : n < before.size) (elsewhere : n ≠ c) :
    n < after.size ∧ after.declaration? n = before.declaration? n := by
  induction edits with
  | refl => exact ⟨inside, rfl⟩
  | tail _ edit ih =>
    obtain ⟨still, same⟩ := ih
    exact ⟨Nat.lt_of_lt_of_le still edit.size_le, (edit.declaration?_eq still elsewhere).trans same⟩

end Sheet

theorem Run.declaration?_renameAround {σ : Type} (run : Run σ) (node n : NodeId) :
    (run.renameAround node).scene.sheet.declaration? n = run.scene.sheet.declaration? n := by
  rcases run.renameAround_cases node with same | ⟨rule, selector, renamed⟩
  · rw [same]
  · rw [renamed]
    unfold Run.renameRule
    simp only
    split
    · split
      · exact (Sheet.declaration?_setSelector _ _ _ _).trans (Sheet.declaration?_setSelector _ _ _ _)
      · rfl
    · split
      · rfl
      · exact Sheet.declaration?_setSelector _ _ _ _

namespace Standard
open Text Directive
open Run (Moment)

section
variable {sheet : Sheet} {whole : Item} {n : Nat}

/-- From one moment to the next, declarations stay that the run has left behind. -/
theorem Point.declaration?_next (options : Options) {moment : Moment State} (point : Point sheet moment)
    (inside : n < sheet.size) (behind : n < frontier sheet moment) :
    (moment.next (engine options).registry).run.scene.sheet.declaration? n = moment.run.scene.sheet.declaration? n := by
  cases point with
  | @between k later run reached sorted ahead =>
    cases later with
    | nil => rfl
    | cons c others =>
      rw [List.map_cons, Run.next_arrive]
      split <;> rfl
  | @within c later moment standing inner sorted ahead =>
    rw [standing.frontier_eq] at behind
    by_cases look : moment.tasks.head? = some (.rename c)
    · obtain ⟨stage, _, _⟩ := standing
      cases stage <;> cases look
      exact Run.declaration?_renameAround _ _ _
    · have edits := (standing.effect options look).edits
      obtain ⟨_, ⟨_, during⟩, _⟩ := standing
      exact (Sheet.declaration?_of_edits edits (Nat.lt_of_lt_of_le inside during.size) (Nat.ne_of_lt behind)).2

/-- Visits to later nodes leave a declaration as it is. -/
theorem declaration?_foldl_visit (holds : sheet.Holds whole) (options : Options) {run : Run State}
    (reached : Reached sheet (IsLeaf sheet) (n + 1) run) {later : List NodeId} (sorted : later.Pairwise (· < ·))
    (ahead : ∀ m ∈ later, n < m ∧ m < sheet.size) (inside : n < sheet.size) :
    (later.foldl (Run.visit (engine options).registry) run).scene.sheet.declaration? n = run.scene.sheet.declaration? n := by
  have along : ∀ time, Point sheet (Run.courseAt (engine options).registry run later time) ∧
      n < frontier sheet (Run.courseAt (engine options).registry run later time) ∧
      (Run.courseAt (engine options).registry run later time).run.scene.sheet.declaration? n = run.scene.sheet.declaration? n := by
    intro time
    induction time with
    | zero =>
      refine ⟨@Point.between sheet (n + 1) later run reached sorted ahead, ?_, rfl⟩
      exact le_frontier_of_arrivals inside (fun m member => (ahead m member).1) rfl
    | succ time ih =>
      obtain ⟨point, behind, same⟩ := ih
      exact ⟨point.next holds options, Nat.lt_of_lt_of_le behind (point.frontier_next holds options).1,
        (point.declaration?_next options inside behind).trans same⟩
  obtain ⟨last, ended⟩ := Run.exists_courseAt_eq_visits (engine options).registry run later
  have same := (along last).2.2
  rwa [ended] at same

/-! ## Declarations at the gate -/

theorem AsRead.consult {run : Run State} (read : AsRead sheet n run) (kind : Kind) {kept entries : List (OpenDirective State)}
    (claimed : Bool) (genuine : ∀ entry ∈ entries, Genuine entry) :
    AsRead sheet n (Run.consult n kind kept claimed entries run).2 := by
  induction entries generalizing run kept claimed with
  | nil => exact read
  | cons entry rest ih =>
    obtain ⟨known, others⟩ := List.forall_mem_cons.mp genuine
    have asked := read.ask kind known
    rw [Run.consult_cons]
    simp only
    split
    · exact ih (asked.endDirective _ _) _ others
    · exact ih asked _ others

/-- The gate leaves a declaration as it was read. -/
theorem content_gate {allowed : Option Nat → Prop} {run : Run State} (reached : Reached sheet allowed n run)
    {decl : Declaration} (declares : sheet.content n = .declaration decl) :
    (run.gate n).2.scene.sheet.content n = .declaration decl := by
  have inside : n < sheet.size := Sheet.lt_size_of_content_ne (by rw [declares]; simp)
  have kind : sheet.kind n = .declaration := by rw [Sheet.kind, declares]; rfl
  have found : run.scene.sheet.content n = sheet.content n := congrArg Node.content (reached.node_eq inside)
  have read : AsRead sheet n (run.marked n) := fun _ => found
  have asked : AsRead sheet n (Run.consult n (run.scene.sheet.kind n) [] false run.stack (run.marked n)).2 :=
    read.consult _ _ fun entry member => (reached.stack entry member).2
  rw [Run.gate_eq_consult (reached.not_mem_handled inside)]
  exact (asked kind).trans declares

end

/-! ## What a mark brings in -/

/-- The text that a mark brings into its declaration, with the name of the directive that does it: the argument of `prepend`,
`append` or `insert`, or the whole body of a mark that names no directive. -/
inductive Brings (body : Text) : Text → Text → Prop where
  | prepend {added : Text} (names : Names "prepend".toList body (some added)) : Brings body "prepend".toList added
  | append {added : Text} (names : Names "append".toList body (some added)) : Brings body "append".toList added
  | insert {added : Text} (names : Names "insert".toList body (some added)) : Brings body "insert".toList added
  | replace (nameless : ∀ name ∈ markNames, ∀ argument, ¬ Names name body argument) : Brings body [] body

theorem Brings.starless {body name added : Text} (brings : Brings body name added) (free : '*' ∉ body) : '*' ∉ added := by
  cases brings with
  | prepend names => exact names.starless free
  | append names => exact names.starless free
  | insert names => exact names.starless free
  | replace nameless => exact free

/-- The parts of a declaration in which a mark may stand. -/
inductive Place where
  | value
  | importance
deriving DecidableEq, Repr

/-- A declaration with one mark and no other star. -/
inductive SoleMark (decl : Declaration) (token : Token) : Place → Prop where
  | value {before behind : Text} (mark : ValueMark decl token before behind) (free : '*' ∉ decl.property ++ decl.between) :
      SoleMark decl token .value
  | importance {before behind : Text} (mark : ImportanceMark decl token before behind)
      (free : '*' ∉ decl.property ++ decl.between) : SoleMark decl token .importance

section
variable {decl : Declaration} {token : Token} {before behind value added : Text}

theorem starless_trimEnd (starless : '*' ∉ value) : '*' ∉ trimEnd value :=
  fun member => starless ((trimEnd_isInfix value).subset member)

theorem starless_trim (starless : '*' ∉ value) : '*' ∉ trim value :=
  fun member => starless ((trim_isInfix value).subset member)

/-- A declaration is as free of stars as its parts, and says what its value says. -/
theorem text_of_parts {after : Declaration} {front back : Text} (whole : after.text = front ++ value ++ back)
    (first : '*' ∉ front) (last : '*' ∉ back) (starless : '*' ∉ value) (within : added <:+: value) :
    '*' ∉ after.text ∧ added <:+: after.text := by
  rw [whole]
  exact ⟨by simp [first, starless, last], within.trans ⟨front, back, rfl⟩⟩

theorem ImportanceMark.text_withoutMarks (mark : ImportanceMark decl token before behind) {changed : Declaration}
    (property : changed.property = decl.property) (between : changed.between = decl.between)
    (important : changed.important = decl.important) (starless : '*' ∉ changed.written) :
    changed.withoutMarks.text = decl.property ++ decl.between ++ changed.written ++ (trimEnd before ++ behind) := by
  rw [mark.withoutMarks_eq between important starless, Declaration.text, property, between]
  rfl

end

section
variable {registry : Registry State} {run : Run State} {node : NodeId} {decl : Declaration} {token : Token}
  {before behind name added : Text} (standard : registry.marks = (plugin (.whole State)).marks)
  (content : run.scene.sheet.content node = .declaration decl) (clean : run.scene.options.clean = true)
include standard content clean

/-- A mark in the value brings its text in. -/
theorem ValueMark.exists_rewritten (mark : ValueMark decl token before behind) (free : '*' ∉ decl.property ++ decl.between)
    (brings : Brings token.body name added) :
    ∃ after, Run.flipDeclaration registry run node = rewritten run node after ∧ '*' ∉ after.text ∧ trim added <:+: after.text := by
  have settle : ∀ {value : Text}, Run.flipDeclaration registry run node = rewritten run node (decl.withWritten value) →
      '*' ∉ value → trim added <:+: value → ∃ after, Run.flipDeclaration registry run node = rewritten run node after ∧
        '*' ∉ after.text ∧ trim added <:+: after.text := by
    intro value flips starless within
    exact ⟨_, flips, text_of_parts (by simp [Declaration.text]) free mark.important starless within⟩
  obtain ⟨starts, ends⟩ := solid_trim added
  have own : trim added <:+: added := trim_isInfix added
  have absent : '*' ∉ added := brings.starless token.starless
  cases brings with
  | prepend names =>
    have front : '*' ∉ trimEnd (added ++ before) := starless_trimEnd (by simp [absent, mark.before])
    have within : trim added <:+: trimEnd (added ++ before) :=
      isInfix_trimEnd ends (own.trans (List.prefix_append _ _).isInfix)
    refine settle (mark.flip_prepend standard content clean names) (starless_trim ?_) (isInfix_trim starts ends ?_)
    · simp only [Option.getD_some, List.mem_append, front, mark.behind, or_self, not_false_eq_true]
    · exact within.trans (List.prefix_append _ _).isInfix
  | append names =>
    refine settle (mark.flip_append standard content clean names) (starless_trim ?_) (isInfix_trim starts ends ?_)
    · simp [starless_trimEnd mark.before, mark.behind, absent]
    · exact own.trans (List.suffix_append _ _).isInfix
  | insert names =>
    refine settle (mark.flip_insert standard content clean names) ?_ (own.trans ⟨before, behind, rfl⟩)
    simp [mark.before, absent, mark.behind]
  | replace nameless =>
    exact settle (mark.flip_replace standard content clean nameless) (starless_trim token.starless) (List.infix_refl _)

/-- A mark in the importance marker brings its text in as well, except that `insert` does no more than strip it. -/
theorem ImportanceMark.exists_rewritten (mark : ImportanceMark decl token before behind)
    (free : '*' ∉ decl.property ++ decl.between) (brings : Brings token.body name added) :
    ∃ after, Run.flipDeclaration registry run node = rewritten run node after ∧ '*' ∉ after.text ∧
      (name ≠ "insert".toList → trim added <:+: after.text) ∧
      (name = "insert".toList → after.text = decl.withoutMarks.text) := by
  have back : '*' ∉ trimEnd before ++ behind := by simp [starless_trimEnd mark.before, mark.behind]
  have settle : ∀ {changed : Declaration}, Run.flipDeclaration registry run node = rewritten run node changed.withoutMarks →
      changed.property = decl.property ∧ changed.between = decl.between ∧ changed.important = decl.important →
      '*' ∉ changed.written → trim added <:+: changed.written → name ≠ "insert".toList →
      ∃ after, Run.flipDeclaration registry run node = rewritten run node after ∧ '*' ∉ after.text ∧
        (name ≠ "insert".toList → trim added <:+: after.text) ∧
        (name = "insert".toList → after.text = decl.withoutMarks.text) := by
    rintro changed flips ⟨property, between, important⟩ starless within other
    obtain ⟨kept, brought⟩ := text_of_parts (mark.text_withoutMarks property between important starless) free back starless within
    exact ⟨_, flips, kept, fun _ => brought, fun named => absurd named other⟩
  have own : trim added <:+: added := trim_isInfix added
  have absent : '*' ∉ added := brings.starless token.starless
  cases brings with
  | prepend names =>
    have within : trim added <:+: added ++ decl.written := own.trans (List.prefix_append _ _).isInfix
    refine settle (mark.flip_prepend standard content clean names) (by simp) ?_ ?_ (by decide)
    · simp [absent, mark.written]
    · rwa [Declaration.written_withWritten]
  | append names =>
    have within : trim added <:+: decl.written ++ added := own.trans (List.suffix_append _ _).isInfix
    refine settle (mark.flip_append standard content clean names) (by simp) ?_ ?_ (by decide)
    · simp [absent, mark.written]
    · rwa [Declaration.written_withWritten]
  | insert names =>
    have same : (decl.withWritten decl.written).withoutMarks.text = decl.withoutMarks.text := by
      rw [mark.text_withoutMarks (by simp) (by simp) (by simp) (by simp [mark.written]),
        mark.text_withoutMarks rfl rfl rfl mark.written, Declaration.written_withWritten]
    have whole := mark.text_withoutMarks rfl rfl rfl mark.written
    refine ⟨_, mark.flip_insert standard content clean names, ?_, fun other => absurd rfl other, fun _ => same⟩
    rw [same]
    exact (text_of_parts whole free back mark.written List.nil_infix).1
  | replace nameless =>
    exact settle (mark.flip_replace standard content clean nameless) ⟨rfl, rfl, rfl⟩ token.starless own (by decide)

/-- The two places taken together. -/
theorem SoleMark.exists_rewritten {place : Place} (mark : SoleMark decl token place) (brings : Brings token.body name added) :
    ∃ after, Run.flipDeclaration registry run node = rewritten run node after ∧ '*' ∉ after.text ∧
      ((name = "insert".toList → place = .value) → trim added <:+: after.text) ∧
      (name = "insert".toList → place = .importance → after.text = decl.withoutMarks.text) := by
  cases mark with
  | value mark free =>
    obtain ⟨after, flips, starless, brought⟩ := mark.exists_rewritten standard content clean free brings
    exact ⟨after, flips, starless, fun _ => brought, fun _ other => by cases other⟩
  | importance mark free =>
    obtain ⟨after, flips, starless, brought, lost⟩ := mark.exists_rewritten standard content clean free brings
    refine ⟨after, flips, starless, fun elsewhere => brought fun named => ?_, fun named _ => lost named⟩
    cases elsewhere named

end

/-! ## Runs -/

section
variable {options : Options} {sheet : Sheet} {whole : Item} {front later : List NodeId} {n : NodeId}

theorem reached_of_trail (holds : sheet.Holds whole) (split : (engine options).trail sheet = front ++ n :: later) :
    Reached sheet (IsLeaf sheet) n (front.foldl (Run.visit (engine options).registry) ((engine options).start sheet)) := by
  obtain ⟨here, _, earlier⟩ := of_trail_eq holds split
  have walked : Reached sheet (IsLeaf sheet) (nodeAt options sheet front.length) (runAt options sheet front.length) :=
    reached_runAt holds front.length
  rwa [here, ← earlier] at walked

/-- What a declaration says when its visit ends is what it says when the run ends. -/
theorem declaration?_flip (holds : sheet.Holds whole) (split : (engine options).trail sheet = front ++ n :: later) :
    ((engine options).flip sheet).1.declaration? n =
      (Run.visit (engine options).registry (front.foldl (Run.visit (engine options).registry) ((engine options).start sheet))
        n).scene.sheet.declaration? n := by
  have inside := (of_trail_eq holds split).2.1
  have onward := (reached_of_trail holds split).visit holds inside (isLeaf_none sheet) (isLeaf_lastBelow holds inside) options
  have increasing : (front ++ n :: later).Pairwise (· < ·) := split ▸ trail_increasing options holds
  obtain ⟨first, sorted⟩ := List.pairwise_cons.mp (List.pairwise_append.mp increasing).2.1
  have ahead : ∀ m ∈ later, n < m ∧ m < sheet.size := by
    intro m member
    have listed : m ∈ (engine options).trail sheet := by
      rw [split]
      simp [member]
    exact ⟨first m member, ((mem_trail_iff_exists holds).mp listed).1⟩
  have traversed : Run.traverse (engine options).registry ((engine options).start sheet) =
      ((engine options).trail sheet).foldl (Run.visit (engine options).registry) ((engine options).start sheet) :=
    Run.traverse_eq_foldl_trail _ _
  rw [split, List.foldl_append, List.foldl_cons] at traversed
  rw [← declaration?_foldl_visit holds options onward.toReached sorted ahead inside, ← traversed]
  rfl

end

/-- A declaration with one mark, in its value or in its importance marker, at which a run arrives with marks to be stripped and
which the gate lets through. At the end the sheet holds it without comments and with the text that the mark brings in, unless
the mark is an `insert` in the importance marker: then the mark is stripped and all else stays. Either way it is one of the
declarations that were counted as flips, and is counted once. -/
theorem sole_mark_acts {text : Text} {sheet : Sheet} (parsed : Sheet.parse text = .ok sheet) {options : Options}
    {front later : List NodeId} {n : NodeId} (split : (engine options).trail sheet = front ++ n :: later) {run : Run State}
    (arrived : run = front.foldl (Run.visit (engine options).registry) ((engine options).start sheet))
    (clean : run.scene.options.clean = true) (passes : (run.gate n).1 = true)
    {decl : Declaration} (declares : sheet.content n = .declaration decl) {token : Token} {place : Place}
    (mark : SoleMark decl token place) {name added : Text} (brings : Brings token.body name added) :
    ∃ after, ((engine options).flip sheet).1.declaration? n = some after ∧ '*' ∉ after.text ∧
      ((name = "insert".toList → place = .value) → trim added <:+: after.text) ∧
      (name = "insert".toList → place = .importance → after.text = decl.withoutMarks.text) ∧
      let counted := Run.counted (engine options).registry ((engine options).trail sheet) ((engine options).start sheet)
      counted.count n = 1 ∧ ((engine options).flip sheet).2.1.flips = counted.length := by
  obtain ⟨_, _, _, holds⟩ := Sheet.exists_holds_of_parse parsed
  have inside := (of_trail_eq holds split).2.1
  have reached : Reached sheet (IsLeaf sheet) n run := arrived ▸ reached_of_trail holds split
  -- The gate keeps the declaration and the options, so the value directives find what was read.
  have content := content_gate reached declares
  have still : (run.gate n).2.scene.options.clean = true := by
    have steady := steady_gate (reached.not_mem_handled inside) fun entry member => (reached.stack entry member).2
    rw [steady.options, clean]
  obtain ⟨after, flips, starless, brought, lost⟩ :=
    mark.exists_rewritten (rfl : (engine options).registry.marks = _) content still brings
  have visited : Run.visit (engine options).registry run n = rewritten (run.gate n).2 n after := by
    rw [← flips]
    simp only [Run.visit, passes, Sheet.kind, content, Content.kind, if_true]
  refine ⟨after, ?_, starless, brought, lost, ?_, (engine options).flips_flip sheet⟩
  · have low : n < (run.gate n).2.scene.sheet.size := Sheet.lt_size_of_content_ne (by rw [content]; simp)
    rw [declaration?_flip holds split, ← arrived, visited]
    simp only [rewritten, Run.countFlip, Run.setSheet, Sheet.declaration?, Sheet.content_setContent low]
  · have once : (front ++ n :: later).Nodup := split ▸ (trail_increasing options holds).imp Nat.ne_of_lt
    rw [split]
    refine Run.count_counted once ?_
    rw [← arrived, visited, ← Run.flips_gate run n]
    exact Nat.succ_ne_self _

/-- An `append` in an importance marker, with a `rename` open around it and declarations before and behind it. -/
theorem sole_mark_acts_append :
    ∃ sheet, Sheet.parse "/*rtl:begin:rename*/.a{top:0;left:1px !important /*! RTL:Append: 2px */;right:0}".toList = .ok sheet ∧
      ((engine {}).trail sheet) = [0, 1, 2, 3] ++ 4 :: [5] ∧
      ∃ after, ((engine {}).flip sheet).1.declaration? 4 = some after ∧ '*' ∉ after.text ∧ "2px".toList <:+: after.text ∧
        (Run.counted (engine {}).registry ((engine {}).trail sheet) ((engine {}).start sheet)).count 4 = 1 := by
  let decl : Declaration :=
    { property := "left".toList, between := ":".toList, value := "1px".toList, raw := none
      important := some " !important /*! RTL:Append: 2px */".toList }
  obtain ⟨sheet, parsed, test⟩ := Sheet.exists_of_readable
    (by decide +kernel :
      (Sheet.parse "/*rtl:begin:rename*/.a{top:0;left:1px !important /*! RTL:Append: 2px */;right:0}".toList).toOption.any
        (fun sheet =>
          let run := [0, 1, 2, 3].foldl (Run.visit (engine {}).registry) ((engine {}).start sheet)
          (engine {}).trail sheet == [0, 1, 2, 3] ++ 4 :: [5] && run.scene.options.clean && (run.gate 4).1 &&
            sheet.content 4 == .declaration decl) = true)
  simp only [Bool.and_eq_true, beq_iff_eq] at test
  obtain ⟨⟨⟨split, clean⟩, passes⟩, declares⟩ := test
  let token : Token :=
    ⟨"!".toList, " ".toList, "RTL:".toList, "Append: 2px ".toList, .inr rfl, List.all_eq_true.mp rfl, by decide, by decide⟩
  have mark : SoleMark decl token .importance :=
    .importance (⟨rfl, by decide, by decide, by decide, by decide⟩ : ImportanceMark decl token " !important ".toList []) (by decide)
  have names : Names "append".toList ("Append".toList ++ ':' :: " 2px ".toList) (some " 2px ".toList) := .argument (by decide)
  obtain ⟨after, found, starless, brought, _, once, _⟩ :=
    sole_mark_acts parsed split rfl clean passes declares mark (.append names)
  exact ⟨sheet, parsed, split, after, found, starless, brought (by decide), once⟩

/-- The argument of an `insert` in an importance marker is nowhere to be found afterwards. -/
theorem loses_inserted_in_importance :
    ∃ sheet decl token, Sheet.parse "a{left:1px !important/*rtl:insert:2px*/}".toList = .ok sheet ∧
      sheet.declaration? 2 = some decl ∧ SoleMark decl token .importance ∧ Brings token.body "insert".toList "2px".toList ∧
      ((engine {}).flip sheet).1.toText = "a{left:1px !important}".toList ∧ ((engine {}).flip sheet).2.1 = ⟨[], 1⟩ ∧
      ¬ trim "2px".toList <:+: "a{left:1px !important}".toList := by
  let decl : Declaration :=
    { property := "left".toList, between := ":".toList, value := "1px".toList, raw := none
      important := some " !important/*rtl:insert:2px*/".toList }
  let token : Token :=
    ⟨[], [], "rtl:".toList, "insert:2px".toList, .inl rfl, List.all_eq_true.mp rfl, by decide, by decide⟩
  obtain ⟨sheet, parsed, test⟩ := Sheet.exists_of_readable
    (by decide +kernel : (Sheet.parse "a{left:1px !important/*rtl:insert:2px*/}".toList).toOption.any (fun sheet =>
      sheet.declaration? 2 == some decl && ((engine {}).flip sheet).1.toText == "a{left:1px !important}".toList &&
        ((engine {}).flip sheet).2.1 == ⟨[], 1⟩) = true)
  simp only [Bool.and_eq_true, beq_iff_eq] at test
  obtain ⟨⟨found, result⟩, report⟩ := test
  have mark : SoleMark decl token .importance :=
    .importance (⟨rfl, by decide, by decide, by decide, by decide⟩ : ImportanceMark decl token " !important".toList []) (by decide)
  have names : Names "insert".toList ("insert".toList ++ ':' :: "2px".toList) (some "2px".toList) := .argument (by decide)
  exact ⟨sheet, decl, token, parsed, found, mark, .insert names, result, report, by decide⟩

end Standard
end StyleFlip
