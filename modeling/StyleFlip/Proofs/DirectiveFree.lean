import StyleFlip.Standard.Basic
import StyleFlip.Proofs.Traversal
import StyleFlip.Proofs.RoundTrip

/-!
Sheets without directives. What becomes of a node of such a sheet is said by a function of its content and the options
alone (`flipContent`), except that selectors may be exchanged at the last declaration of their rule. A run that has
visited the nodes before number `k` has made exactly these changes up to `k` (`Visited`), and each visit carries this on
to the next number (`Visited.visit_eq`, `Visited.next_of_runAfter`). Without automatic renaming the whole run is
therefore a map over the nodes (`flip_eq_mapContent`).
-/
namespace StyleFlip

/-- The sheet with the content of every node changed. -/
def Sheet.mapContent (sheet : Sheet) (change : Content → Content) : Sheet :=
  ⟨sheet.nodes.map fun node => { node with content := change node.content }⟩

namespace Standard

/-! ## What becomes of a node -/

/-- The flip rule that answers from the name and the value alone. -/
def statelessRule {σ : Type} (pattern : Pattern) (answer : Text → Text → Flipped) : FlipRule σ where
  fits := pattern.fits
  flip name value _ store := (answer name value, store)

/-- What the standard flip rules answer, in the order in which they are tried. -/
def answers : List (Pattern × (Text → Text → Flipped)) :=
  [(.names ["direction".toList], fun name value => ⟨name, ltrRtl.apply value⟩),
   (.names ["float".toList, "clear".toList, "text-align".toList, "text-align-last".toList],
     fun name value => ⟨name, leftRight.apply value⟩),
   (.names ["margin".toList, "padding".toList, "border-width".toList, "border-style".toList, "border-color".toList,
     "inset".toList, "scroll-margin".toList, "scroll-padding".toList], fun name value => ⟨name, flipEdges value⟩),
   (.names ["border-radius".toList], fun name value => ⟨name, flipRadius value⟩),
   (.names ["cursor".toList], fun name value => ⟨name, flipCursor value⟩),
   (sidedNames, fun name value => ⟨leftRight.apply name, value⟩)]

/-- What the first standard flip rule for a name gives for a value. -/
def answer? (name value : Text) : Option Flipped :=
  (answers.find? fun (pattern, _) => pattern.fits name).map fun (_, answer) => answer name value

theorem answer?_left (value : Text) : answer? "left".toList value = some ⟨"right".toList, value⟩ := by
  have rule : (answers.find? fun (pattern, _) => pattern.fits "left".toList) =
      some (sidedNames, fun name value => ⟨leftRight.apply name, value⟩) := rfl
  have renamed : leftRight.apply "left".toList = "right".toList := by decide +kernel
  simp only [answer?, rule, Option.map_some, renamed]

/-- The declaration that the flip rules make of a declaration; none if they leave it alone. The rules see the name under
which the property is looked up, and the value with its comments set aside and its insets exchanged. -/
def flipped? (options : Options) (decl : Declaration) : Option Declaration :=
  let name := (options.alias? decl.property).getD decl.property
  let (working, comments) := Text.setAside decl.written
  match answer? name (if options.processEnv then safeAreaInsets.apply working else working) with
  | none => none
  | some answer =>
    let value := Text.restore comments answer.value
    if answer.property = name ∧ value = decl.written then none
    else some ((if answer.property = name then decl else { decl with property := answer.property }).withWritten value)

/-- What becomes of a node by itself: the params of at-rules are flipped if the options ask for it, and declarations are
what the flip rules make of them. -/
def flipContent (options : Options) : Content → Content
  | .atRule name params hasBlock =>
    .atRule name (if options.processUrls.atRules then options.map.apply .url params else params) hasBlock
  | .declaration decl => .declaration ((flipped? options decl).getD decl)
  | other => other

/-- Whether a node holds a declaration that the flip rules do not leave alone. -/
def isFlipped (options : Options) (sheet : Sheet) (id : Nat) : Bool :=
  ((sheet.declaration? id).bind (flipped? options)).isSome

theorem kind_of_isFlipped {options : Options} {sheet : Sheet} {id : Nat} (flipped : isFlipped options sheet id = true) :
    sheet.kind id = .declaration := by
  cases found : sheet.declaration? id with
  | none => simp [isFlipped, found] at flipped
  | some decl => exact congrArg Content.kind (Sheet.content_of_declaration? found)

theorem isFlipped_of_kind_ne {options : Options} {sheet : Sheet} {id : Nat} (other : sheet.kind id ≠ .declaration) :
    isFlipped options sheet id = false := by
  by_cases flipped : isFlipped options sheet id = true
  · exact absurd (kind_of_isFlipped flipped) other
  · simpa using flipped

/-- Whether a node is neither a directive comment nor a declaration with a mark that a value directive looks for. -/
def isPlain : Content → Bool
  | .comment text => (Directive.Comment.parse? text).isNone
  | .declaration decl =>
    ["ignore".toList, "prepend".toList, "append".toList, "insert".toList, []].all fun name =>
      (Directive.findMark? name decl.markText).isNone
  | _ => true

def directiveFree (sheet : Sheet) : Bool := sheet.nodes.all fun node => isPlain node.content

theorem flipped?_keeps {options : Options} {decl changed : Declaration} (found : flipped? options decl = some changed) :
    changed.between = decl.between ∧ changed.important = decl.important := by
  unfold flipped? at found
  dsimp only at found
  split at found
  · cases found
  · split at found
    · cases found
    · cases found
      split <;> simp

/-- A declaration that is looked up under its own name is changed whenever it counts as flipped. -/
theorem ne_of_flipped? {options : Options} {decl changed : Declaration} (found : flipped? options decl = some changed)
    (own : options.alias? decl.property = none) : changed ≠ decl := by
  unfold flipped? at found
  simp only [own, Option.getD_none] at found
  split at found
  · cases found
  · rename_i answer _
    split at found
    · cases found
    · rename_i differs
      cases found
      intro same
      have values := congrArg Declaration.written same
      have properties := congrArg Declaration.property same
      rw [Declaration.written_withWritten] at values
      rw [Declaration.property_withWritten] at properties
      by_cases renamed : answer.property = decl.property
      · exact differs ⟨renamed, values⟩
      · rw [if_neg renamed] at properties
        exact renamed properties

/-! ## One visit -/

/-- The engine with the standard plugin knows the standard flip rules only. -/
theorem ruleFor?_engine (options : Options) (name : Text) :
    (engine options).registry.ruleFor? name =
      (answers.find? fun (pattern, _) => pattern.fits name).map fun (pattern, answer) => statelessRule pattern answer := by
  have rules : (engine options).registry.plugins.flatMap (·.rules) =
      answers.map fun (pattern, answer) => statelessRule pattern answer := rfl
  rw [Registry.ruleFor?, rules, List.find?_map]
  rfl

open Run in
/-- The flip rules set the declaration that is said by its content and the options, and count it. -/
theorem flipByRule_eq {options : Options} {run : Run State} (inForce : run.scene.options = options) {node : Nat}
    {decl : Declaration} (found : run.scene.sheet.declaration? node = some decl) :
    flipByRule (engine options).registry run node =
      match flipped? options decl with
      | none => run
      | some changed => (run.setSheet (run.scene.sheet.setContent node (.declaration changed))).countFlip := by
  have content : run.scene.sheet.content node = .declaration decl := Sheet.content_of_declaration? found
  simp only [flipByRule, found, inForce, ruleFor?_engine, flipped?, answer?]
  cases fits : answers.find? fun (pattern, _) => pattern.fits ((options.alias? decl.property).getD decl.property) with
  | none => rfl
  | some entry =>
    simp only [Option.map_some, statelessRule]
    generalize entry.2 _ _ = answer
    split
    · rfl
    · simp only [Scene.modifyDeclaration, Sheet.modifyDeclaration, content, setSheet]

theorem obeyMarksFrom_of_unmarked {node : Nat} {source : Text} {rules : List (MarkRule State)}
    (unmarked : ∀ rule ∈ rules, Directive.findMark? rule.name source = none) (run : Run State) :
    Run.obeyMarksFrom node source rules run = (false, run) := by
  induction rules with
  | nil => rfl
  | cons rule rest ih =>
    rw [Run.obeyMarksFrom, unmarked rule List.mem_cons_self]
    exact ih fun other member => unmarked other (List.mem_cons_of_mem _ member)

theorem obeyMarks_of_isPlain {options : Options} {run : Run State} {node : Nat}
    (plain : isPlain (run.scene.sheet.content node) = true) :
    Run.obeyMarks (engine options).registry run node = (false, run) := by
  simp only [Run.obeyMarks, Sheet.declaration?]
  cases content : run.scene.sheet.content node with
  | declaration decl =>
    rw [content] at plain
    simp only
    split
    · refine obeyMarksFrom_of_unmarked ?_ run
      have names : (engine options).registry.marks.map (·.name) =
          ["ignore".toList, "prepend".toList, "append".toList, "insert".toList, []] := rfl
      simp only [isPlain, ← names, List.all_map, List.all_eq_true] at plain
      exact fun rule member => Option.isNone_iff_eq_none.mp (plain rule member)
    · rfl
  | _ => rfl

theorem obeyComment_of_isPlain {options : Options} {run : Run State} {node : Nat}
    (plain : isPlain (run.scene.sheet.content node) = true) :
    Run.obeyComment (engine options).registry run node = run := by
  simp only [Run.obeyComment, Sheet.comment?]
  cases content : run.scene.sheet.content node with
  | comment text =>
    rw [content] at plain
    simp only [Option.bind_some, Option.isNone_iff_eq_none.mp plain]
  | _ => rfl

/-- Without open directives the gate lets through every node that is not done with. -/
theorem gate_of_stack_nil {run : Run State} {node : Nat} (fresh : node ∉ run.scene.handled) (quiet : run.stack = []) :
    run.gate node = (true, run.marked node) := by
  rw [Run.gate_eq_consult fresh, quiet, Run.consult]
  cases run
  cases quiet
  rfl

/-- A selector exchanged for its flipped form. -/
def flipSelector (map : StringMap) : Content → Content
  | .rule selector => .rule (map.apply .selector selector)
  | other => other

theorem renameAround_eq {run : Run State} {node parent : Nat} (attached : run.scene.sheet.parent node = some parent)
    (lenient : run.scene.options.autoRename = true → run.scene.options.autoRenameStrict = false) :
    run.renameAround node =
      if run.scene.options.autoRename = true ∧ run.flipped = 0 ∧ run.scene.sheet.isFinalOfKind node = true then
        run.setSheet (run.scene.sheet.modifyContent parent (flipSelector run.scene.map))
      else run := by
  have unchanged : run.scene.sheet.modifyContent parent (flipSelector run.scene.map) = run.scene.sheet →
      run = run.setSheet (run.scene.sheet.modifyContent parent (flipSelector run.scene.map)) := by
    intro same
    rw [same, Run.setSheet]
  simp only [Run.renameAround, attached, Sheet.selector?]
  by_cases asked : run.scene.options.autoRename = true
  · by_cases none : run.flipped = 0
    · simp only [asked, none, Bool.not_true, Nat.lt_irrefl, decide_false, Bool.or_self, Bool.false_eq_true, if_false,
        true_and]
      cases content : run.scene.sheet.content parent with
      | rule selector =>
        simp only
        split
        · rw [Run.renameRule, lenient asked]
          simp only [Bool.false_eq_true, if_false]
          split
          · rename_i same
            refine unchanged (Sheet.modifyContent_eq_self ?_)
            rw [content, flipSelector, same]
          · rw [Sheet.setSelector, content]
            simp only
            rw [Sheet.setContent_eq_modifyContent]
            rw [content, flipSelector]
        · rfl
      | _ =>
        simp only
        split
        · exact unchanged (Sheet.modifyContent_eq_self (by rw [content, flipSelector]; simp))
        · rfl
    · simp [asked, none, Nat.pos_of_ne_zero none]
  · simp [asked]

/-! ## The run up to a node -/

def lastDeclaration? (sheet : Sheet) (id : Nat) : Option Nat :=
  ((sheet.children id).filter fun child => sheet.kind child == .declaration).getLast?

/-- The declarations before number `k` that the flip rules do not leave alone, counted from the last rule on. -/
def flipsSinceRule (options : Options) (sheet : Sheet) : Nat → Nat
  | 0 => 0
  | k + 1 =>
    if sheet.kind k = .rule then 0 else flipsSinceRule options sheet k + (if isFlipped options sheet k then 1 else 0)

/-- Whether the selector of a node is exchanged before number `k` is reached: its last declaration has been visited, and
none was flipped from the last rule before it on. -/
def isRenamed (options : Options) (sheet : Sheet) (k id : Nat) : Bool :=
  options.autoRename &&
    (lastDeclaration? sheet id).any fun last => last < k && flipsSinceRule options sheet (last + 1) == 0

/-- What a node says once the nodes before number `k` have been visited. -/
def contentAt (options : Options) (sheet : Sheet) (k id : Nat) (content : Content) : Content :=
  if id < k then
    if isRenamed options sheet k id then flipSelector options.map (flipContent options content)
    else flipContent options content
  else content

/-- A run over a sheet without directives that has visited the nodes before number `k`. -/
structure Visited (options : Options) (sheet : Sheet) (k : Nat) (run : Run State) : Prop where
  nodes : ∀ id : Nat, run.scene.sheet.nodes[id]? =
    sheet.nodes[id]?.map fun node => { node with content := contentAt options sheet k id node.content }
  inForce : run.scene.options = options
  map : run.scene.map = options.map
  handled : ∀ id ∈ run.scene.handled, id < k
  warnings : run.scene.warnings = []
  stack : run.stack = []
  pending : run.pending = []
  flipped : run.flipped = flipsSinceRule options sheet k
  flips : run.flips = (List.range k).countP (isFlipped options sheet)

/-- In a list without repetitions, an element is the last one of its sort if none of its sort comes after it. -/
theorem getLast?_filter_eq_some_iff {l : List Nat} (distinct : l.Nodup) {sort : Nat → Bool} {n : Nat} (member : n ∈ l)
    (sorted : sort n = true) :
    (l.filter sort).getLast? = some n ↔ (l.dropWhile (· ≠ n)).tail.any sort = false := by
  obtain ⟨before, later, rfl, absent⟩ := List.eq_append_cons_of_mem member
  have skipped : (before ++ n :: later).dropWhile (· ≠ n) = n :: later := by
    rw [List.dropWhile_append_of_pos]
    · simp
    · intro m inside
      have : m ≠ n := fun same => absent (same ▸ inside)
      simpa using this
  have once : n ∉ later := by
    have := (List.nodup_append.mp distinct).2.1
    exact (List.nodup_cons.mp this).1
  have onlyBefore : ∀ m ∈ later.filter sort, m ≠ n := by
    rintro m inside rfl
    exact once (List.mem_filter.mp inside).1
  rw [skipped, List.tail_cons, List.filter_append, List.filter_cons_of_pos sorted, List.getLast?_append]
  cases rest : later.filter sort with
  | nil =>
    have none : later.any sort = false := by
      rw [List.any_eq_false]
      exact List.filter_eq_nil_iff.mp rest
    simp [none]
  | cons first others =>
    have found : later.any sort = true := by
      have inside : first ∈ later.filter sort := rest ▸ List.mem_cons_self
      exact List.any_eq_true.mpr ⟨first, List.mem_filter.mp inside⟩
    rw [List.getLast?_cons_cons, found]
    constructor
    · intro last
      cases final : (first :: others).getLast? with
      | none => simp at final
      | some m =>
        rw [final] at last
        have inside : m ∈ later.filter sort := rest ▸ List.mem_of_getLast? final
        exact absurd (by simpa using last) (onlyBefore m inside)
    · intro impossible
      cases impossible

section
variable {options : Options} {sheet : Sheet} {whole : Item} {k : Nat} {run : Run State}

theorem lastDeclaration?_eq_some_iff (holds : sheet.Holds whole) (declares : sheet.kind k = .declaration) {id : Nat} :
    lastDeclaration? sheet id = some k ↔ sheet.parent k = some id ∧ sheet.isFinalOfKind k = true := by
  have ofChild : k ∈ sheet.children id →
      (lastDeclaration? sheet id = some k ↔ sheet.parent k = some id ∧ sheet.isFinalOfKind k = true) := by
    intro member
    obtain ⟨_, _, attached⟩ := holds.of_mem_children member
    have distinct : (sheet.children id).Nodup := (holds.children_increasing id).imp Nat.ne_of_lt
    rw [lastDeclaration?, getLast?_filter_eq_some_iff distinct member (by simp [declares])]
    simp only [Sheet.isFinalOfKind, attached, declares, Bool.not_eq_true', true_and]
  constructor
  · intro last
    have member : k ∈ sheet.children id := (List.mem_filter.mp (List.mem_of_getLast? last)).1
    exact (ofChild member).mp last
  · rintro ⟨attached, final⟩
    exact (ofChild (holds.mem_children attached)).mpr ⟨attached, final⟩

theorem of_lastDeclaration?_eq_some (holds : sheet.Holds whole) {id last : Nat}
    (found : lastDeclaration? sheet id = some last) :
    sheet.kind last = .declaration ∧ id < last ∧ last < sheet.size ∧ sheet.parent last = some id := by
  obtain ⟨member, declares⟩ := List.mem_filter.mp (List.mem_of_getLast? found)
  exact ⟨by simpa using declares, holds.of_mem_children member⟩

@[simp] theorem kind_flipContent (content : Content) : (flipContent options content).kind = content.kind := by
  cases content <;> rfl

@[simp] theorem kind_flipSelector (map : StringMap) (content : Content) : (flipSelector map content).kind = content.kind := by
  cases content <;> rfl

@[simp] theorem kind_contentAt (id : Nat) (content : Content) : (contentAt options sheet k id content).kind = content.kind := by
  unfold contentAt
  split
  · split <;> simp
  · rfl

/-- A node is not renamed before its own visit is over, since its declarations come after it. -/
theorem contentAt_succ_self (holds : sheet.Holds whole) (content : Content) :
    contentAt options sheet (k + 1) k content = flipContent options content := by
  have early : isRenamed options sheet (k + 1) k = false := by
    cases last : lastDeclaration? sheet k with
    | none => simp [isRenamed, last]
    | some n =>
      have later := (of_lastDeclaration?_eq_some holds last).2.1
      have ahead : ¬ n < k + 1 := by omega
      simp only [isRenamed, last, Option.any_some, decide_eq_false ahead, Bool.false_and, Bool.and_false]
  simp [contentAt, early]

/-- Whether the selector around a node is exchanged when the node is visited. -/
def renamesAround (options : Options) (sheet : Sheet) (k : Nat) : Bool :=
  options.autoRename && flipsSinceRule options sheet (k + 1) == 0 && sheet.kind k == .declaration && sheet.isFinalOfKind k

theorem contentAt_succ_of_ne (holds : sheet.Holds whole) {id : Nat} (other : id ≠ k) (content : Content) :
    contentAt options sheet (k + 1) id content =
      if renamesAround options sheet k = true ∧ sheet.parent k = some id then
        flipSelector options.map (contentAt options sheet k id content)
      else contentAt options sheet k id content := by
  have past : id < k + 1 ↔ id < k := by omega
  -- A selector is exchanged at the last declaration below it and nowhere else.
  by_cases last : lastDeclaration? sheet id = some k
  · obtain ⟨declares, before, _, attached⟩ := of_lastDeclaration?_eq_some holds last
    obtain ⟨_, final⟩ := (lastDeclaration?_eq_some_iff holds declares).mp last
    simp only [contentAt, past, if_pos before, isRenamed, last, renamesAround, attached, final, declares, Option.any_some,
      Nat.lt_irrefl, Nat.lt_succ_self]
    cases options.autoRename <;> simp
  · have same : isRenamed options sheet (k + 1) id = isRenamed options sheet k id := by
      cases found : lastDeclaration? sheet id with
      | none => simp [isRenamed, found]
      | some n =>
        have apart : n ≠ k := fun same => last (same ▸ found)
        have passed : n < k + 1 ↔ n < k := by omega
        simp only [isRenamed, found, Option.any_some, passed]
    have kept : ¬ (renamesAround options sheet k = true ∧ sheet.parent k = some id) := by
      rintro ⟨renames, attached⟩
      simp only [renamesAround, Bool.and_eq_true, beq_iff_eq] at renames
      exact last ((lastDeclaration?_eq_some_iff holds renames.1.2).mpr ⟨attached, renames.2⟩)
    rw [if_neg kept]
    simp only [contentAt, past, same]

theorem Visited.content_eq (visited : Visited options sheet k run) (id : Nat) :
    run.scene.sheet.content id = contentAt options sheet k id (sheet.content id) := by
  simp only [Sheet.content, Sheet.node, visited.nodes]
  cases sheet.nodes[id]? with
  | some node => rfl
  | none => simp [contentAt, flipContent, flipSelector]

/-- A run finds the next node as it was read. -/
theorem Visited.content_next (visited : Visited options sheet k run) : run.scene.sheet.content k = sheet.content k := by
  rw [visited.content_eq, contentAt, if_neg (Nat.lt_irrefl k)]

theorem Visited.kind_eq (visited : Visited options sheet k run) (id : Nat) : run.scene.sheet.kind id = sheet.kind id := by
  simp only [Sheet.kind, visited.content_eq, kind_contentAt]

theorem Visited.shape (visited : Visited options sheet k run) : run.scene.sheet.SameShape sheet := by
  refine ⟨?_, ?_, ?_⟩
  · have stop : ∀ n, run.scene.sheet.nodes.size ≤ n ↔ sheet.nodes.size ≤ n := by
      intro n
      rw [← Array.getElem?_eq_none_iff, ← Array.getElem?_eq_none_iff, visited.nodes, Option.map_eq_none_iff]
    exact Nat.le_antisymm ((stop _).mpr (Nat.le_refl _)) ((stop _).mp (Nat.le_refl _))
  · intro id
    simp only [Sheet.parent, Sheet.node, visited.nodes]
    cases sheet.nodes[id]? <;> rfl
  · intro id
    simp only [Sheet.children, Sheet.node, visited.nodes]
    cases sheet.nodes[id]? <;> rfl

/-- What one visit makes of the sheet as it is. -/
def sheetAfter (options : Options) (sheet : Sheet) (k : Nat) (now : Sheet) : Sheet :=
  let flipped := now.modifyContent k (flipContent options)
  match sheet.parent k with
  | some parent => if renamesAround options sheet k then flipped.modifyContent parent (flipSelector options.map) else flipped
  | none => flipped

theorem getElem?_sheetAfter (holds : sheet.Holds whole) (now : Sheet) (id : Nat) :
    (sheetAfter options sheet k now).nodes[id]? = now.nodes[id]?.map fun node =>
      { node with content :=
          if id = k then flipContent options node.content
          else if renamesAround options sheet k = true ∧ sheet.parent k = some id then flipSelector options.map node.content
          else node.content } := by
  unfold sheetAfter
  cases attached : sheet.parent k with
  | none => simp [Sheet.getElem?_modifyContent]
  | some parent =>
    have above : k ≠ parent := Nat.ne_of_gt (holds.of_mem_children (holds.mem_children attached)).1
    cases renames : renamesAround options sheet k with
    | false => simp [Sheet.getElem?_modifyContent]
    | true =>
      simp only [if_true, Sheet.getElem?_modifyContent, Option.map_map, Option.some.injEq, true_and]
      congr 1
      funext node
      by_cases own : id = k
      · simp [own, above]
      · simp [own, eq_comm]

/-- The run after a visit to node `k`, with the sheet that the visit leaves. -/
def runAfter (options : Options) (sheet : Sheet) (k : Nat) (run : Run State) (changed : Sheet) : Run State :=
  { run with
    scene := { run.scene with sheet := changed, handled := k :: run.scene.handled }
    flipped := flipsSinceRule options sheet (k + 1)
    flips := run.flips + (if isFlipped options sheet k then 1 else 0) }

theorem Visited.next_of_runAfter (holds : sheet.Holds whole) (visited : Visited options sheet k run) :
    Visited options sheet (k + 1) (runAfter options sheet k run (sheetAfter options sheet k run.scene.sheet)) where
  nodes := by
    intro id
    simp only [runAfter, getElem?_sheetAfter holds, visited.nodes, Option.map_map]
    congr 1
    funext node
    by_cases own : id = k
    · subst own
      have before : contentAt options sheet id id node.content = node.content := if_neg (Nat.lt_irrefl id)
      simp [contentAt_succ_self holds, before]
    · simp [own, contentAt_succ_of_ne holds own]
  inForce := visited.inForce
  map := visited.map
  handled := by
    intro id member
    rcases List.mem_cons.mp member with rfl | earlier
    · exact Nat.lt_succ_self _
    · exact Nat.lt_succ_of_lt (visited.handled id earlier)
  warnings := visited.warnings
  stack := visited.stack
  pending := visited.pending
  flipped := rfl
  flips := by
    simp [runAfter, visited.flips, List.range_succ, List.countP_append, List.countP_cons]

/-- A node that is no declaration is never flipped and never exchanges the selector around it. -/
theorem Visited.runAfter_of_kind_ne (visited : Visited options sheet k run) (other : sheet.kind k ≠ .declaration) :
    runAfter options sheet k run (sheetAfter options sheet k run.scene.sheet) =
      { run with
        scene := { run.scene with
          sheet := run.scene.sheet.modifyContent k (flipContent options), handled := k :: run.scene.handled }
        flipped := if sheet.kind k = .rule then 0 else run.flipped } := by
  have keeps : renamesAround options sheet k = false := by simp [renamesAround, other]
  have counts : isFlipped options sheet k = false := isFlipped_of_kind_ne other
  have changed : sheetAfter options sheet k run.scene.sheet = run.scene.sheet.modifyContent k (flipContent options) := by
    unfold sheetAfter
    split <;> simp [keeps]
  simp [runAfter, changed, flipsSinceRule, counts, visited.flipped]

theorem Visited.flipByRule_eq_runAfter (visited : Visited options sheet k run) {decl : Declaration}
    (content : sheet.content k = .declaration decl) :
    Run.flipByRule (engine options).registry (run.marked k) k =
      runAfter options sheet k run (run.scene.sheet.modifyContent k (flipContent options)) := by
  have here : run.scene.sheet.content k = .declaration decl := visited.content_next.trans content
  have kind : sheet.kind k = .declaration := congrArg Content.kind content
  have found : (run.marked k).scene.sheet.declaration? k = some decl := by simp only [Run.sheet_marked, Sheet.declaration?, here]
  have inForce : (run.marked k).scene.options = options := visited.inForce
  have counts : isFlipped options sheet k = (flipped? options decl).isSome := by
    simp [isFlipped, Sheet.declaration?, content]
  rw [flipByRule_eq inForce found]
  cases outcome : flipped? options decl with
  | none =>
    have same : run.scene.sheet.modifyContent k (flipContent options) = run.scene.sheet :=
      Sheet.modifyContent_eq_self (by rw [here, flipContent, outcome]; rfl)
    simp [runAfter, Run.marked, same, flipsSinceRule, kind, counts, outcome, visited.flipped]
  | some changed =>
    have set : run.scene.sheet.setContent k (.declaration changed) = run.scene.sheet.modifyContent k (flipContent options) :=
      Sheet.setContent_eq_modifyContent (by rw [here, flipContent, outcome]; rfl)
    simp [runAfter, Run.marked, Run.countFlip, Run.setSheet, set, flipsSinceRule, kind, counts, outcome, visited.flipped]

theorem Visited.flipDeclaration_eq (visited : Visited options sheet k run) {decl : Declaration}
    (content : sheet.content k = .declaration decl) (plain : isPlain (sheet.content k) = true)
    (lenient : options.autoRename = true → options.autoRenameStrict = false) :
    Run.flipDeclaration (engine options).registry (run.marked k) k =
      runAfter options sheet k run (sheetAfter options sheet k run.scene.sheet) := by
  have here : (run.marked k).scene.sheet.content k = sheet.content k := visited.content_next
  have kind : sheet.kind k = .declaration := congrArg Content.kind content
  have shape : (run.scene.sheet.modifyContent k (flipContent options)).SameShape sheet :=
    (Sheet.sameShape_modifyContent _ _ _).trans visited.shape
  -- The renaming looks at the sheet as the flip rules leave it, which has the shape and the kinds of the first one.
  have final : (run.scene.sheet.modifyContent k (flipContent options)).isFinalOfKind k = sheet.isFinalOfKind k :=
    shape.isFinalOfKind_eq (fun id => by rw [Sheet.kind_modifyContent kind_flipContent, visited.kind_eq]) k
  rw [Run.flipDeclaration, obeyMarks_of_isPlain (by rw [here]; exact plain)]
  simp only [Bool.false_eq_true, if_false, visited.flipByRule_eq_runAfter content]
  cases attached : sheet.parent k with
  | none =>
    have top : (run.scene.sheet.modifyContent k (flipContent options)).parent k = none := by rw [shape.parent, attached]
    simp only [sheetAfter, attached, Run.renameAround, runAfter, top]
    split <;> rfl
  | some parent =>
    rw [renameAround_eq (by rw [← attached]; exact shape.parent k) (by rw [runAfter, visited.inForce]; exact lenient)]
    simp only [sheetAfter, attached, renamesAround, kind, runAfter, visited.inForce, visited.map, final, Run.setSheet]
    simp only [Bool.and_eq_true, beq_iff_eq, and_true, and_assoc, beq_self_eq_true]
    split <;> rfl

theorem Visited.visit_eq (visited : Visited options sheet k run) (free : directiveFree sheet = true)
    (lenient : options.autoRename = true → options.autoRenameStrict = false) (inside : k < sheet.size) :
    Run.visit (engine options).registry run k =
      runAfter options sheet k run (sheetAfter options sheet k run.scene.sheet) := by
  have fresh : k ∉ run.scene.handled := fun member => Nat.lt_irrefl k (visited.handled k member)
  have here : run.scene.sheet.content k = sheet.content k := visited.content_next
  have plain : isPlain (sheet.content k) = true := by
    have found : sheet.nodes[k]? = some sheet.nodes[k] := Array.getElem?_eq_getElem inside
    rw [Sheet.content_eq_of_getElem? found]
    exact Array.all_eq_true.mp free k inside
  have same : flipContent options (sheet.content k) = sheet.content k →
      run.scene.sheet.modifyContent k (flipContent options) = run.scene.sheet := by
    intro fixed
    refine Sheet.modifyContent_eq_self ?_
    rw [here, fixed]
  rw [Run.visit, gate_of_stack_nil fresh visited.stack]
  simp only [if_true, Run.sheet_marked, visited.kind_eq]
  -- Only at-rules and declarations say something else afterwards; a rule starts the count of flips anew.
  cases content : sheet.content k with
  | root =>
    have kind : sheet.kind k = .root := congrArg Content.kind content
    rw [visited.runAfter_of_kind_ne (by simp [kind]), same (by rw [content]; rfl)]
    simp [kind, Run.marked]
  | comment text =>
    have kind : sheet.kind k = .comment := congrArg Content.kind content
    rw [visited.runAfter_of_kind_ne (by simp [kind]), same (by rw [content]; rfl)]
    simp only [kind]
    rw [obeyComment_of_isPlain (by rw [Run.sheet_marked, here]; exact plain)]
    rfl
  | rule selector =>
    have kind : sheet.kind k = .rule := congrArg Content.kind content
    rw [visited.runAfter_of_kind_ne (by simp [kind]), same (by rw [content]; rfl)]
    simp [kind, Run.marked]
  | atRule name params hasBlock =>
    have kind : sheet.kind k = .atRule := congrArg Content.kind content
    rw [visited.runAfter_of_kind_ne (by simp [kind])]
    simp only [kind, Run.flipParams, Run.options_marked, Run.sheet_marked, Run.map_marked, visited.inForce, Sheet.params?, here,
      content]
    by_cases asked : options.processUrls.atRules = true
    · have changed : run.scene.sheet.setParams k (options.map.apply .url params) =
          run.scene.sheet.modifyContent k (flipContent options) := by
        rw [Sheet.setParams, here, content]
        refine Sheet.setContent_eq_modifyContent ?_
        rw [here, content, flipContent, if_pos asked]
      simp [asked, Run.marked, Run.setSheet, visited.inForce, visited.map, changed]
    · rw [if_neg asked, same (by rw [content, flipContent, if_neg asked])]
      simp [Run.marked, visited.inForce]
  | declaration decl =>
    have kind : sheet.kind k = .declaration := congrArg Content.kind content
    simp only [kind]
    exact visited.flipDeclaration_eq content plain lenient

/-- A run over a sheet without directives visits every node once, in the order of their numbers. -/
theorem visited_traverse (holds : sheet.Holds whole) (free : directiveFree sheet = true)
    (lenient : options.autoRename = true → options.autoRenameStrict = false) {start : Run State}
    (first : Visited options sheet 0 start) :
    Visited options sheet sheet.size (start.traverse (engine options).registry) := by
  have inv : Run.Invariant (engine options).registry sheet (Visited options sheet) := by
    have step : ∀ k run, Visited options sheet k run → k < sheet.size →
        Visited options sheet (k + 1) (Run.visit (engine options).registry run k) := by
      intro k run visited inside
      rw [visited.visit_eq free lenient inside]
      exact visited.next_of_runAfter holds
    have inside : Sheet.root < sheet.size := Sheet.lt_size_of_getElem? holds.1.getElem?
    refine ⟨?_, ?_, ?_, ?_⟩
    · intro k run visited inside
      exact visited.shape.parent k
    · intro k run visited inside
      exact (step k run visited inside).shape.children k
    · intro run visited
      exact (step _ run visited inside).shape.parent _
    · intro k run visited inside
      rw [Run.resume, if_pos ((step k run visited inside).shape.parent k)]
      exact step k run visited inside
  exact inv.traverse holds first

/-- What the engine makes of a sheet without directives, read off the run. -/
theorem visited_flip (holds : sheet.Holds whole) (free : directiveFree sheet = true)
    (lenient : options.autoRename = true → options.autoRenameStrict = false) :
    ∃ run : Run State, Visited options sheet sheet.size run ∧ ((engine options).flip sheet).1 = run.scene.sheet ∧
      ((engine options).flip sheet).2.1 = run.report := by
  refine ⟨_, visited_traverse holds free lenient ?_, rfl, rfl⟩
  exact ⟨fun id => by simp [contentAt], rfl, rfl, fun _ member => (by cases member), rfl, rfl, rfl, rfl, rfl⟩

/-- Without automatic renaming every node becomes what its own content says. -/
theorem Visited.sheet_eq (visited : Visited options sheet sheet.size run) (fixed : options.autoRename = false) :
    run.scene.sheet = sheet.mapContent (flipContent options) := by
  refine congrArg Sheet.mk (Array.ext_getElem? fun id => ?_)
  rw [visited.nodes, Array.getElem?_map]
  cases found : sheet.nodes[id]? with
  | none => rfl
  | some node =>
    have inside : id < sheet.size := Sheet.lt_size_of_getElem? found
    simp [contentAt, inside, isRenamed, fixed]

/-- Nothing is warned about, and the flips are those of the nodes in document order. -/
theorem Visited.report_eq (holds : sheet.Holds whole) (visited : Visited options sheet sheet.size run) :
    run.report = { warnings := [], flips := (sheet.preorder Sheet.root).countP (isFlipped options sheet) } := by
  obtain ⟨stored, size⟩ := holds
  have order : sheet.preorder Sheet.root = List.range sheet.size := by
    rw [Sheet.preorder, stored.preorderWithin_eq (by omega), ← size, Sheet.root, List.range_eq_range']
  rw [Run.report, visited.warnings, visited.stack, visited.pending, visited.flips, order]
  rfl

end

/-! ## The whole run -/

/-- Without automatic renaming, a run over a sheet without directives is a map over its nodes: each becomes what its own
content and the options say, nothing is warned about, and the flips are the attached declarations that the flip rules do
not leave alone. These keep what stands around their values; they differ from what they were unless an alias led the
rules back to the property as it was. -/
theorem flip_eq_mapContent {text : Text} {sheet : Sheet} (parsed : Sheet.parse text = .ok sheet)
    (free : directiveFree sheet = true) {options : Options} (fixed : options.autoRename = false) :
    ((engine options).flip sheet).1 = sheet.mapContent (flipContent options) ∧
    ((engine options).flip sheet).2.1 =
      { warnings := [], flips := (sheet.preorder Sheet.root).countP (isFlipped options sheet) } ∧
    ∀ decl changed, flipped? options decl = some changed →
      changed.between = decl.between ∧ changed.important = decl.important ∧
        (options.alias? decl.property = none → changed ≠ decl) := by
  obtain ⟨items, trailing, _, holds⟩ := Sheet.exists_holds_of_parse parsed
  have lenient : options.autoRename = true → options.autoRenameStrict = false := by simp [fixed]
  obtain ⟨run, visited, result, report⟩ := visited_flip holds free lenient
  refine ⟨result.trans (visited.sheet_eq fixed), report.trans (visited.report_eq holds), ?_⟩
  intro decl changed found
  obtain ⟨between, important⟩ := flipped?_keeps found
  exact ⟨between, important, ne_of_flipped? found⟩

theorem flip_eq_mapContent_nested :
    ∃ sheet, Sheet.parse "a{left:0}@media x{/*n*/b{float:left/*n*/}}".toList = .ok sheet ∧ directiveFree sheet = true ∧
      ({} : Options).autoRename = false ∧ ((engine {}).flip sheet).1 = sheet.mapContent (flipContent {}) ∧
      ((engine {}).flip sheet).2.1 =
        { warnings := [], flips := (sheet.preorder Sheet.root).countP (isFlipped {} sheet) } := by
  obtain ⟨sheet, parsed, free⟩ := Sheet.exists_of_readable
    (by cbv : (Sheet.parse "a{left:0}@media x{/*n*/b{float:left/*n*/}}".toList).toOption.any directiveFree = true)
  obtain ⟨result, report, _⟩ := flip_eq_mapContent parsed free (rfl : ({} : Options).autoRename = false)
  exact ⟨sheet, parsed, free, rfl, result, report⟩

/-- A declaration that an alias leads back to its own name counts as flipped, although nothing has changed. -/
theorem flip_counts_alias_of_own_name :
    ∃ sheet, Sheet.parse "a{right:1px}".toList = .ok sheet ∧ directiveFree sheet = true ∧
      ((engine { aliases := [("right".toList, "left".toList)] }).flip sheet).1 = sheet ∧
      ((engine { aliases := [("right".toList, "left".toList)] }).flip sheet).2.1 = { warnings := [], flips := 1 } := by
  let decl : Declaration :=
    { property := "right".toList, between := ":".toList, value := "1px".toList, raw := none, important := none }
  let sheet : Sheet := ⟨#[{ content := .root, children := [1] },
    { content := .rule "a".toList, parent := some 0, children := [2] }, { content := .declaration decl, parent := some 1 }]⟩
  let options : Options := { aliases := [("right".toList, "left".toList)] }
  have parsed : Sheet.parse "a{right:1px}".toList = .ok sheet := by cbv
  have free : directiveFree sheet = true := by cbv
  have back : flipped? options decl = some decl := by
    have name : (options.alias? decl.property).getD decl.property = "left".toList := rfl
    have aside : Text.setAside decl.written = ("1px".toList, []) := by cbv
    have kept : safeAreaInsets.apply "1px".toList = "1px".toList := by decide +kernel
    have restored : Text.restore [] "1px".toList = "1px".toList := by cbv
    have asked : options.processEnv = true := rfl
    simp only [flipped?, name, aside, asked, if_true, kept, answer?_left, restored]
    rfl
  have counted : (sheet.preorder Sheet.root).countP (isFlipped options sheet) = 1 := by
    have order : sheet.preorder Sheet.root = [0, 1, 2] := rfl
    have last : isFlipped options sheet 2 = true := congrArg Option.isSome back
    rw [order, List.countP_cons, List.countP_cons, List.countP_cons, last]
    rfl
  obtain ⟨items, trailing, _, holds⟩ := Sheet.exists_holds_of_parse parsed
  obtain ⟨run, visited, result, report⟩ := visited_flip holds free (by decide : options.autoRename = true → _)
  refine ⟨sheet, parsed, free, ?_, ?_⟩
  · rw [result, visited.sheet_eq rfl]
    simp [sheet, Sheet.mapContent, flipContent, back]
  · rw [report, visited.report_eq holds, counted]

end Standard
end StyleFlip
