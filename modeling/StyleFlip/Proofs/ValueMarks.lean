import StyleFlip.Proofs.DirectiveFree
import StyleFlip.Proofs.Moments

/-!
What value directives make of a declaration. A declaration with a mark that one of them looks for is dealt with by the first
such directive, and what becomes of it depends on the declaration alone, except that its marks are stripped if the options ask
for it (`exists_obeyMarks_eq`). So whether a visit to a declaration counts as a flip is said by its content and the options
(`flipValue_eq`).
-/
namespace StyleFlip

theorem Directive.after?_of_afterLead? {text rest : Text} (found : afterLead? text = some rest) :
    (Text.after? Text.commentOpen text).isSome = true := by
  unfold afterLead? at found
  split at found
  · cases found
  · rename_i opened
    rw [opened]
    rfl

/-- A text with a mark has the start of a comment. -/
theorem Directive.holds_of_findMark? {name text : Text} (found : (findMark? name text).isSome = true) :
    Text.holds Text.commentOpen text = true := by
  induction text with
  | nil => cases found
  | cons c rest ih =>
    rw [Text.holds, Text.cut?]
    split
    · rfl
    · rename_i closed
      have unmarked : markAt? name (c :: rest) = none := by
        unfold markAt?
        split
        · rfl
        · rename_i lead
          have opened := after?_of_afterLead? lead
          rw [closed] at opened
          cases opened
      rw [findMark?, unmarked] at found
      have later := ih (by simpa using found)
      rw [Text.holds] at later
      simpa using later

theorem Sheet.setContent_setContent (sheet : Sheet) (id : Nat) (first second : Content) :
    (sheet.setContent id first).setContent id second = sheet.setContent id second := by
  refine congrArg Sheet.mk (Array.ext_getElem? fun n => ?_)
  simp only [setContent, Sheet.modify, Array.getElem?_modify]
  split
  · cases sheet.nodes[n]? <;> rfl
  · rfl

theorem Sheet.content_setContent {sheet : Sheet} {id : Nat} (inside : id < sheet.size) (content : Content) :
    (sheet.setContent id content).content id = content := by
  have found : (sheet.setContent id content).nodes[id]? = some { sheet.node id with content } := by
    rw [setContent, getElem?_modify, if_pos rfl, Sheet.node, Array.getElem?_eq_getElem inside]
    rfl
  rw [content_eq_of_getElem? found]

theorem Sheet.lt_size_of_content_ne {sheet : Sheet} {id : Nat} (other : sheet.content id ≠ .root) : id < sheet.size := by
  by_contra outside
  refine other ?_
  rw [content, Sheet.node, Array.getElem?_eq_none (Nat.le_of_not_lt outside)]
  rfl

theorem Declaration.property_withoutMarks (decl : Declaration) : decl.withoutMarks.property = decl.property := by
  simp only [Declaration.withoutMarks]
  split
  · simp
  · rfl

namespace Standard

section
variable {run : Run State} {node : Nat} {decl : Declaration}

theorem call_changing {name : Text} {change? : Declaration → Option Declaration} {changed : Declaration}
    (answer : change? decl = some changed) (content : run.scene.sheet.content node = .declaration decl) :
    run.call ((changing name change?).act node) =
      (true, run.setSheet (run.scene.sheet.setContent node (.declaration changed))) := by
  simp only [Run.call, changing, Sheet.declaration?, content, Option.bind_some, answer, Scene.modifyDeclaration,
    Sheet.modifyDeclaration, Run.setSheet]

theorem call_keepValue (content : run.scene.sheet.content node = .declaration decl) :
    run.call (keepValue.act node) = (true, run.setSheet (run.scene.sheet.setContent node (.declaration decl))) := by
  have same : run.scene.sheet.setContent node (.declaration decl) = run.scene.sheet := by
    have kept : id (run.scene.sheet.content node) = .declaration decl := content
    rw [Sheet.setContent_eq_modifyContent kept]
    exact Sheet.modifyContent_eq_self rfl
  rw [same]
  rfl

end

/-- What a standard value directive does to a declaration with its mark, before marks are stripped. -/
theorem exists_act_eq {rule : MarkRule State} (member : rule ∈ (plugin (.whole State)).marks) {decl : Declaration}
    (found : (Directive.findMark? rule.name decl.markText).isSome = true) :
    ∃ changed : Declaration, changed.property = decl.property ∧
      ∀ (run : Run State) (node : Nat), run.scene.sheet.content node = .declaration decl →
        run.call (rule.act node) = (true, run.setSheet (run.scene.sheet.setContent node (.declaration changed))) := by
  obtain ⟨mark, marked⟩ := Option.isSome_iff_exists.mp found
  have argument : argument? rule.name decl = some (mark.argument.getD []) := by
    rw [argument?, marked]
    rfl
  obtain rfl | rfl | rfl | rfl | rfl := mark_cases member
  · exact ⟨decl, rfl, fun run node content => call_keepValue content⟩
  · refine ⟨decl.withWritten (mark.argument.getD [] ++ decl.written), by simp, fun run node => call_changing ?_⟩
    exact congrArg (Option.map _) argument
  · refine ⟨decl.withWritten (decl.written ++ mark.argument.getD []), by simp, fun run node => call_changing ?_⟩
    exact congrArg (Option.map _) argument
  · -- `insert` always gives something, whether or not the mark stands in the value.
    cases inValue : Directive.findMark? "insert".toList decl.written with
    | none =>
      refine ⟨decl.withWritten decl.written, by simp, fun run node => call_changing ?_⟩
      simp only [inValue]
    | some other =>
      refine ⟨decl.withWritten (other.before ++ other.argument.getD [] ++ other.following), by simp,
        fun run node => call_changing ?_⟩
      simp only [inValue]
  · have argument : argument? [] decl = some (mark.argument.getD []) := argument
    cases inValue : Directive.findMark? [] decl.written with
    | none =>
      refine ⟨decl.withValue (mark.argument.getD []), rfl, fun run node => call_changing ?_⟩
      simp only [argument, inValue, Option.map_some]
    | some other =>
      refine ⟨decl.withWritten (mark.argument.getD [] ++ other.token), by simp, fun run node => call_changing ?_⟩
      simp only [argument, inValue, Option.map_some]

/-- The first value directive whose mark is there deals with the declaration. -/
theorem exists_obeyMarksFrom_eq {decl : Declaration} {rules : List (MarkRule State)}
    (known : ∀ rule ∈ rules, rule ∈ (plugin (.whole State)).marks)
    (marked : ∃ rule ∈ rules, (Directive.findMark? rule.name decl.markText).isSome = true) :
    ∃ changed : Declaration, changed.property = decl.property ∧
      ∀ (run : Run State) (node : Nat), run.scene.sheet.content node = .declaration decl →
        Run.obeyMarksFrom node decl.markText rules run =
          (true, (run.setSheet (run.scene.sheet.setContent node (.declaration
            (if run.scene.options.clean then changed.withoutMarks else changed)))).countFlip) := by
  induction rules with
  | nil =>
    obtain ⟨_, impossible, _⟩ := marked
    cases impossible
  | cons rule rest ih =>
    by_cases here : (Directive.findMark? rule.name decl.markText).isSome = true
    · obtain ⟨changed, property, acts⟩ := exists_act_eq (known rule List.mem_cons_self) here
      refine ⟨changed, property, fun run node content => ?_⟩
      have inside : node < run.scene.sheet.size := Sheet.lt_size_of_content_ne (by rw [content]; simp)
      rw [Run.obeyMarksFrom, if_pos here, acts run node content]
      cases clean : run.scene.options.clean with
      | false => simp [Run.setSheet, clean]
      | true =>
        simp only [Run.setSheet, clean, if_true, Scene.modifyDeclaration, Sheet.modifyDeclaration,
          Sheet.content_setContent inside, Sheet.setContent_setContent]
    · obtain ⟨other, member, found⟩ := marked
      have later : other ∈ rest := by
        rcases List.mem_cons.mp member with rfl | later
        · exact absurd found here
        · exact later
      obtain ⟨changed, property, acts⟩ := ih (fun other member => known other (List.mem_cons_of_mem _ member)) ⟨other, later, found⟩
      refine ⟨changed, property, fun run node content => ?_⟩
      rw [Run.obeyMarksFrom, if_neg here, acts run node content]

/-- A declaration with a mark is dealt with by a value directive, in the same way in every run. -/
theorem exists_obeyMarks_eq {decl : Declaration} (marked : isPlain (.declaration decl) = false) :
    ∃ changed : Declaration, changed.property = decl.property ∧
      ∀ (options : Options) (run : Run State) (node : Nat), run.scene.sheet.content node = .declaration decl →
        Run.obeyMarks (engine options).registry run node =
          (true, (run.setSheet (run.scene.sheet.setContent node (.declaration
            (if run.scene.options.clean then changed.withoutMarks else changed)))).countFlip) := by
  have names : (plugin (.whole State)).marks.map (·.name) =
      ["ignore".toList, "prepend".toList, "append".toList, "insert".toList, []] := rfl
  simp only [isPlain, ← names, List.all_map, List.all_eq_false, Function.comp_apply, Bool.not_eq_true,
    Option.isNone_eq_false_iff] at marked
  obtain ⟨rule, member, found⟩ := marked
  obtain ⟨changed, property, acts⟩ := exists_obeyMarksFrom_eq (fun _ known => known) ⟨rule, member, found⟩
  refine ⟨changed, property, fun options run node content => ?_⟩
  have rules : (engine options).registry.marks = (plugin (.whole State)).marks := rfl
  simp only [Run.obeyMarks, Sheet.declaration?, content, Directive.holds_of_findMark? found, if_true, rules]
  exact acts run node content

/-- Whether a visit to a declaration counts as a flip: a value directive or a flip rule deals with it. -/
def actsOn (options : Options) (decl : Declaration) : Bool :=
  !isPlain (.declaration decl) || (flipped? options decl).isSome

/-- A visit rewrites a declaration and counts a flip, or leaves it alone, in the same way in every run. -/
theorem exists_flipValue_eq (options : Options) (decl : Declaration) :
    ∃ written : Declaration, ∀ (run : Run State) (node : Nat), run.scene.options = options →
      run.scene.sheet.content node = .declaration decl → Run.flipValue (engine options).registry run node =
        if actsOn options decl then (run.setSheet (run.scene.sheet.setContent node (.declaration written))).countFlip
        else run := by
  cases plain : isPlain (.declaration decl) with
  | false =>
    obtain ⟨changed, _, acts⟩ := exists_obeyMarks_eq plain
    refine ⟨if options.clean then changed.withoutMarks else changed, fun run node inForce content => ?_⟩
    have dealt := acts options run node content
    simp only [Run.flipValue, dealt, inForce, if_true, actsOn, plain, Bool.not_false, Bool.true_or]
  | true =>
    refine ⟨(flipped? options decl).getD decl, fun run node inForce content => ?_⟩
    have unmarked : Run.obeyMarks (engine options).registry run node = (false, run) := obeyMarks_of_isPlain (by rw [content, plain])
    have found : run.scene.sheet.declaration? node = some decl := by simp only [Sheet.declaration?, content]
    have ruled := flipByRule_eq inForce found
    simp only [Run.flipValue, unmarked, Bool.false_eq_true, if_false, ruled, actsOn, plain, Bool.not_true, Bool.false_or]
    cases flipped? options decl <;> simp

end Standard
end StyleFlip
