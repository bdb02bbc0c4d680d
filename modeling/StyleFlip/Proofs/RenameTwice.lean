import StyleFlip.Proofs.FlipCounts
import StyleFlip.Proofs.Stripping
import StyleFlip.Proofs.ValueMarks

/-!
How often a selector is flipped. In a sheet whose directive comments hold `rename` forms only, every node is visited in its
turn, and nothing is cut off but comments (`Renamed`). Each `rename` that is open when a rule is reached flips its selector
(`consult_renames`), and automatic renaming flips it once more at the last declaration of the rule, no matter what was done
before (`renameAround_renamed`). So a selector is flipped as often as there are open `rename`s, and once more where nothing was
dealt with since the last rule began: a rule under one `rename` does not keep its flipped selector if automatic renaming comes
to it as well (`selector?_flip_eq_iterate`).
-/
namespace StyleFlip.Standard

/-- Whether a visit to a node counts as a flip. -/
def actsAt (options : Options) (sheet : Sheet) (id : Nat) : Bool := (sheet.declaration? id).any (actsOn options)

/-- The declarations before number `k` whose visits count as flips, counted from the last rule on. -/
def actsSinceRule (options : Options) (sheet : Sheet) : Nat → Nat
  | 0 => 0
  | k + 1 => if sheet.kind k = .rule then 0 else actsSinceRule options sheet k + (if actsAt options sheet k then 1 else 0)

/-- Whether automatic renaming flips the selector of a rule: it is asked for, the rule has declarations, and up to the last of
them no visit since the last rule counts as a flip. -/
def autoRenames (options : Options) (sheet : Sheet) (rule : Nat) : Bool :=
  options.autoRename && (lastDeclaration? sheet rule).any fun last => actsSinceRule options sheet (last + 1) == 0

def openRenames (run : Run State) : Nat :=
  run.stack.countP fun entry => entry.invocation.name == "rename".toList && entry.control.isSome

/-! ## Steps that flip selectors -/

/-- Nothing of a sheet has been cut off but comments. -/
def Uncut (sheet now : Sheet) : Prop := ∃ gone, sheet.Stripped gone (fun _ => False) now

/-- What becomes of a scene when comments are cut off and selectors are flipped, each so many times. -/
structure Mirrors (sheet : Sheet) (times : Nat → Nat) (before after : Scene) : Prop where
  uncut : Uncut sheet before.sheet → Uncut sheet after.sheet
  inForce : after.options = before.options
  map : after.map = before.map
  selectors : ∀ n, after.sheet.selector? n = (before.sheet.selector? n).map (before.map.apply .selector)^[times n]

/-- An open `rename`, opened by a comment of the sheet. -/
structure IsRename (sheet : Sheet) (entry : OpenDirective State) : Prop where
  name : entry.invocation.name = "rename".toList
  control : entry.control = some rename
  source : sheet.kind entry.invocation.source = .comment

section
variable {sheet : Sheet} {run : Run State}

/-- Nothing but the nodes that are done with and the warnings may change. -/
theorem Mirrors.of_eq {before after : Scene} (same : after.sheet = before.sheet) (inForce : after.options = before.options)
    (map : after.map = before.map) : Mirrors sheet (fun _ => 0) before after where
  uncut := fun known => by rwa [same]
  inForce := inForce
  map := map
  selectors := fun n => by simp [same]

theorem Mirrors.refl (scene : Scene) : Mirrors sheet (fun _ => 0) scene scene := .of_eq rfl rfl rfl

theorem Mirrors.trans {first second third : Scene} {times more : Nat → Nat} (one : Mirrors sheet times first second)
    (two : Mirrors sheet more second third) : Mirrors sheet (fun n => more n + times n) first third where
  uncut := fun known => two.uncut (one.uncut known)
  inForce := two.inForce.trans one.inForce
  map := two.map.trans one.map
  selectors := by
    intro n
    rw [two.selectors, one.selectors, one.map, Option.map_map, Function.iterate_add]

theorem Mirrors.stripSource {source : Nat} (comment : sheet.kind source = .comment) (preserve : Bool) :
    Mirrors sheet (fun _ => 0) run.scene (run.stripSource source preserve).scene := by
  unfold Run.stripSource
  split
  · exact .refl run.scene
  · refine ⟨?_, rfl, rfl, fun n => ?_⟩
    · rintro ⟨gone, known⟩
      exact ⟨source :: gone, known.strip comment⟩
    · simp only [Run.setSheet, Sheet.selector?, Sheet.content_remove, Function.iterate_zero, Option.map_id_fun, id]

theorem Mirrors.endDirective {entry : OpenDirective State} (isRename : IsRename sheet entry) (stack : List (OpenDirective State)) :
    Mirrors sheet (fun _ => 0) run.scene (run.endDirective entry stack).scene :=
  @Mirrors.stripSource sheet { run with stack := stack } _ isRename.source _

theorem selector?_modifyContent_flipSelector (sheet : Sheet) (rule n : Nat) (map : StringMap) :
    (sheet.modifyContent rule (flipSelector map)).selector? n =
      (sheet.selector? n).map (map.apply .selector)^[if n = rule then 1 else 0] := by
  simp only [Sheet.selector?, Sheet.content, Sheet.node, Sheet.getElem?_modifyContent]
  cases sheet.nodes[n]? with
  | none => simp
  | some node =>
    by_cases own : n = rule
    · simp only [own, if_true, Option.map_some, Option.getD_some, Function.iterate_one]
      cases node.content <;> rfl
    · simp [own]

/-- Flipping the selector of one rule. -/
theorem Mirrors.flipSelector (scene : Scene) (rule : Nat) :
    Mirrors sheet (fun n => if n = rule then 1 else 0) scene
      { scene with sheet := scene.sheet.modifyContent rule (flipSelector scene.map) } where
  uncut := by
    rintro ⟨gone, known⟩
    exact ⟨gone, known.similar (.refl sheet) (.modifyContent (kind_flipSelector _ _)) fun _ => False.elim⟩
  inForce := rfl
  map := rfl
  selectors := fun n => selector?_modifyContent_flipSelector _ _ _ _

/-- Other content for a node that is no rule. -/
theorem Mirrors.setContent {scene : Scene} {c : Nat} {content : Content} (same : content.kind = scene.sheet.kind c)
    (plain : content.kind ≠ .rule) :
    Mirrors sheet (fun _ => 0) scene { scene with sheet := scene.sheet.setContent c content } where
  uncut := by
    rintro ⟨gone, known⟩
    exact ⟨gone, known.similar (.refl sheet) (.setContent same) fun _ => False.elim⟩
  inForce := rfl
  map := rfl
  selectors := fun n => by
    rw [Sheet.selector?_setContent_of_ne (same ▸ plain) plain]
    simp

/-! ### Open directives -/

theorem Mirrors.enterRename (c : Nat) (invocation : Invocation) :
    Mirrors sheet (fun n => if n = c then 1 else 0) run.scene (run.call (enterRename c invocation)).2.scene := by
  have entered : (run.call (Standard.enterRename c invocation)).2.scene =
      { run.scene with sheet := run.scene.sheet.modifyContent c (Standard.flipSelector run.scene.map) } := by
    simp only [Run.call, Standard.enterRename, Sheet.selector?]
    cases content : run.scene.sheet.content c with
    | rule selector =>
      have flips : Standard.flipSelector run.scene.map (run.scene.sheet.content c) =
          .rule (run.scene.map.apply .selector selector) := by
        rw [content]
        rfl
      simp only [Sheet.setSelector, content, Sheet.setContent_eq_modifyContent flips]
    | _ => rw [Sheet.modifyContent_eq_self (by rw [content]; rfl)]
  rw [entered]
  exact .flipSelector run.scene c

/-- Asked about a rule, a `rename` flips its selector and claims nothing. -/
theorem ask_rename {entry : OpenDirective State} (isRename : IsRename sheet entry) (c : Nat) (run : Run State) :
    let outcome := Run.ask c .rule entry run
    Mirrors sheet (fun n => if n = c then 1 else 0) run.scene outcome.1.scene ∧ outcome.1.flipped = run.flipped ∧
      outcome.2.1 = false := by
  have entered : Mirrors sheet (fun n => if n = c then 1 else 0) run.scene (run.call (enterRename c entry.invocation)).2.scene :=
    .enterRename c entry.invocation
  have silent : (run.call (enterRename c entry.invocation)).1 = false := by
    simp only [Run.call, enterRename]
    split <;> rfl
  unfold Run.ask
  rw [isRename.control]
  cases entry.invocation.closes <;> exact ⟨entered, rfl, silent⟩

@[simp] theorem flipped_endDirective (run : Run State) (entry : OpenDirective State) (stack : List (OpenDirective State)) :
    (run.endDirective entry stack).flipped = run.flipped := by
  unfold Run.endDirective Run.stripSource
  split <;> rfl

/-- All open `rename`s flip the selector of a rule that is reached. -/
theorem consult_renames {entries : List (OpenDirective State)} (renames : ∀ entry ∈ entries, IsRename sheet entry)
    (c : Nat) (claimed : Bool) (kept : List (OpenDirective State)) (run : Run State) :
    let after := Run.consult c .rule kept claimed entries run
    after.1 = claimed ∧ Mirrors sheet (fun n => if n = c then entries.length else 0) run.scene after.2.scene ∧
      after.2.flipped = run.flipped ∧ ∀ entry ∈ after.2.stack, entry ∈ kept ++ entries := by
  induction entries generalizing run kept with
  | nil =>
    refine ⟨rfl, ?_, rfl, fun entry member => by simpa [Run.consult] using member⟩
    simp only [List.length_nil, ite_self]
    exact .refl run.scene
  | cons first rest ih =>
    obtain ⟨isRename, others⟩ := List.forall_mem_cons.mp renames
    obtain ⟨flips, steady, silent⟩ := ask_rename isRename c run
    rw [Run.consult_cons]
    generalize Run.ask c .rule first run = outcome at *
    obtain ⟨after, claims, closed⟩ := outcome
    obtain rfl : claims = false := silent
    simp only [Bool.or_false] at *
    have total : (fun n => (if n = c then rest.length else 0) + if n = c then 1 else 0) =
        fun n => if n = c then (first :: rest).length else 0 := by
      funext n
      split <;> simp
    rw [← total]
    cases closed with
    | true =>
      have ended : Mirrors sheet _ run.scene (after.endDirective first (kept ++ rest)).scene :=
        flips.trans (.endDirective isRename (kept ++ rest))
      obtain ⟨answer, more, steadyNext, stack⟩ := ih others kept (after.endDirective first (kept ++ rest))
      refine ⟨answer, by simpa using ended.trans more, ?_, fun entry member => by have := stack entry member; grind⟩
      simpa using steadyNext.trans (by simpa using steady)
    | false =>
      obtain ⟨answer, more, steadyNext, stack⟩ := ih others (kept ++ [first]) after
      exact ⟨answer, flips.trans more, steadyNext.trans steady, fun entry member => by have := stack entry member; grind⟩

/-- Other nodes are of no interest to a `rename`. -/
theorem consult_of_kind_ne {entries : List (OpenDirective State)} (renames : ∀ entry ∈ entries, IsRename sheet entry)
    {kind : Kind} (other : kind ≠ .rule) (c : Nat) (claimed : Bool) (kept : List (OpenDirective State)) (run : Run State) :
    Run.consult c kind kept claimed entries run = (claimed, { run with stack := kept ++ entries }) := by
  induction entries generalizing kept with
  | nil => rw [Run.consult, List.append_nil]
  | cons first rest ih =>
    obtain ⟨isRename, others⟩ := List.forall_mem_cons.mp renames
    have uninterested : (rename : Control State).interest.accepts kind = false := by
      cases kind with
      | rule => exact absurd rfl other
      | _ => rfl
    rw [Run.consult, isRename.control]
    simp only [uninterested, Bool.false_eq_true, if_false]
    rw [ih others, List.append_assoc, List.singleton_append]

/-! ### Forms -/

/-- What forms of `rename` do to a run in which nothing else is open: they flip and count nothing, and open nothing else. -/
structure Obeys (sheet : Sheet) (before after : Run State) : Prop where
  mirrors : Mirrors sheet (fun _ => 0) before.scene after.scene
  flipped : after.flipped = before.flipped
  renames : (∀ entry ∈ before.stack, IsRename sheet entry) → ∀ entry ∈ after.stack, IsRename sheet entry

theorem Obeys.refl (run : Run State) : Obeys sheet run run := ⟨.refl _, rfl, id⟩

theorem Obeys.trans {first second third : Run State} (one : Obeys sheet first second) (two : Obeys sheet second third) :
    Obeys sheet first third :=
  ⟨one.mirrors.trans two.mirrors, two.flipped.trans one.flipped, fun known => two.renames (one.renames known)⟩

theorem Obeys.stripSource {source : Nat} (comment : sheet.kind source = .comment) (preserve : Bool) :
    Obeys sheet run (run.stripSource source preserve) where
  mirrors := .stripSource comment preserve
  flipped := by
    unfold Run.stripSource
    split <;> rfl
  renames := by
    rw [Run.stack_stripSource]
    exact id

section
variable {options : Options} (enabled : options.disables pluginName "rename".toList = false)
include enabled

/-- A form of `rename` opens one, or closes the innermost one. -/
theorem Obeys.obey (inForce : run.scene.options = options) (renames : ∀ entry ∈ run.stack, IsRename sheet entry)
    {invocation : Invocation} (name : invocation.name = "rename".toList) (comment : sheet.kind invocation.source = .comment) :
    Obeys sheet run (Run.obey (engine options).registry run invocation).2 := by
  have found : (engine options).registry.lookup run.scene.options invocation.name = .found rename := by
    rw [inForce, name]
    change Registry.lookupIn options "rename".toList [plugin (.whole State)] = .found rename
    have other : ¬ options.disables (plugin (.whole State)).name "rename".toList = true := by
      change ¬ options.disables pluginName "rename".toList = true
      rw [enabled]
      exact Bool.false_ne_true
    rw [Registry.lookupIn, if_neg other]
    rfl
  unfold Run.obey
  rw [found]
  cases opens : invocation.opens with
  | true =>
    refine ⟨.refl _, rfl, fun _ entry member => ?_⟩
    rcases List.mem_append.mp member with old | new
    · exact renames entry old
    · rw [List.mem_singleton.mp new]
      exact ⟨name, rfl, comment⟩
  | false =>
    simp only [Bool.false_eq_true, if_false, Run.obeyEnd]
    split
    · exact ⟨.of_eq rfl rfl rfl, rfl, id⟩
    · rename_i before entry later closes
      obtain ⟨row, _⟩ := Run.mem_of_lastNamed? closes
      have isRename := renames entry (by rw [row]; simp)
      rw [isRename.control]
      refine ⟨.endDirective isRename (before ++ later), flipped_endDirective _ _ _, fun _ other member => renames other ?_⟩
      change other ∈ (run.endDirective entry (before ++ later)).stack at member
      rw [Run.stack_endDirective] at member
      rw [row]
      grind

theorem Obeys.obeyForms {c : Nat} (comment : sheet.kind c = .comment) (preserve : Bool) {forms : List Directive.Form}
    (names : ∀ form ∈ forms, form.name = "rename".toList) (consumed : Bool) (inForce : run.scene.options = options)
    (renames : ∀ entry ∈ run.stack, IsRename sheet entry) :
    Obeys sheet run (Run.obeyForms (engine options).registry c preserve consumed forms run).2 := by
  induction forms generalizing run consumed with
  | nil => exact .refl run
  | cons form rest ih =>
    obtain ⟨own, others⟩ := List.forall_mem_cons.mp names
    let invocation : Invocation :=
      { name := form.name, argument := form.argument, opens := form.opens, closes := form.closes, preserve, source := c }
    have first : Obeys sheet run (Run.obey (engine options).registry run invocation).2 :=
      .obey enabled inForce renames own comment
    have inForceNext := first.mirrors.inForce.trans inForce
    have renamesNext := first.renames renames
    rw [Run.obeyForms]
    generalize Run.obey (engine options).registry run invocation = outcome at *
    obtain ⟨verdict, after⟩ := outcome
    cases verdict with
    | taken => exact first.trans (ih others true inForceNext renamesNext)
    | unknown => exact first.trans (ih others consumed inForceNext renamesNext)
    | final => exact first

/-- A comment with nothing but `rename` forms. -/
theorem Obeys.obeyComment {c : Nat} (comment : sheet.kind c = .comment)
    (text : run.scene.sheet.comment? c = sheet.comment? c) (names : ∀ form ∈ formsAt sheet c, form.name = "rename".toList)
    (inForce : run.scene.options = options) (renames : ∀ entry ∈ run.stack, IsRename sheet entry) :
    Obeys sheet run (Run.obeyComment (engine options).registry run c) := by
  simp only [Run.obeyComment, text]
  split
  · exact .refl run
  · rename_i found
    rw [formsAt, found] at names
    split
    · exact (Obeys.obeyForms enabled comment _ names false inForce renames).trans (.stripSource comment _)
    · exact .obeyForms enabled comment _ names false inForce renames

end
end

/-! ## The run up to a node -/

/-- How often the selector of a node is flipped before number `k` is reached, where `opened` says how many `rename`s are open
when a node is reached. -/
def flipsBefore (options : Options) (sheet : Sheet) (opened : Nat → Nat) (k n : Nat) : Nat :=
  if n < k then opened n + (if autoRenames options sheet n && (lastDeclaration? sheet n).any (· < k) then 1 else 0) else 0

/-- A run over a sheet whose directive comments hold `rename` forms only, once it has visited the nodes before number `k`. -/
structure Renamed (options : Options) (sheet : Sheet) (opened : Nat → Nat) (k : Nat) (run : Run State) : Prop where
  uncut : Uncut sheet run.scene.sheet
  inForce : run.scene.options = options
  map : run.scene.map = options.map
  renames : ∀ entry ∈ run.stack, IsRename sheet entry
  flipped : run.flipped = actsSinceRule options sheet k
  selectors : ∀ n, run.scene.sheet.selector? n =
    (sheet.selector? n).map (options.map.apply .selector)^[flipsBefore options sheet opened k n]

section
variable {options : Options} {sheet : Sheet} {whole : Item} {opened : Nat → Nat} {k : Nat} {run : Run State}

/-- The selector of a node is flipped by the `rename`s that are open at its own visit, and by automatic renaming at the visit to
the last declaration below it. -/
theorem flipsBefore_succ (holds : sheet.Holds whole) (n : Nat) :
    flipsBefore options sheet opened (k + 1) n =
      (if autoRenames options sheet n = true ∧ lastDeclaration? sheet n = some k then 1 else 0) +
        ((if n = k then opened k else 0) + flipsBefore options sheet opened k n) := by
  have behind : ∀ last, lastDeclaration? sheet n = some last → n < last :=
    fun last found => (of_lastDeclaration?_eq_some holds found).2.1
  unfold flipsBefore
  cases found : lastDeclaration? sheet n with
  | none =>
    simp only [Option.any_none, Bool.and_false]
    grind
  | some last =>
    have later := behind last found
    simp only [Option.any_some, Option.some.injEq]
    grind

/-- What a visit leaves behind if it flips selectors as it should and counts. -/
theorem Renamed.of_mirrors (holds : sheet.Holds whole) (renamed : Renamed options sheet opened k run) {after : Run State}
    {times : Nat → Nat} (mirrors : Mirrors sheet times run.scene after.scene)
    (renames : ∀ entry ∈ after.stack, IsRename sheet entry) (flipped : after.flipped = actsSinceRule options sheet (k + 1))
    (counted : ∀ n, sheet.kind n = .rule → times n =
      (if autoRenames options sheet n = true ∧ lastDeclaration? sheet n = some k then 1 else 0) + if n = k then opened k else 0) :
    Renamed options sheet opened (k + 1) after where
  uncut := mirrors.uncut renamed.uncut
  inForce := mirrors.inForce.trans renamed.inForce
  map := mirrors.map.trans renamed.map
  renames := renames
  flipped := flipped
  selectors := by
    intro n
    rw [mirrors.selectors, renamed.selectors, renamed.map, Option.map_map, ← Function.iterate_add]
    cases selector : sheet.selector? n with
    | none => rfl
    | some text =>
      have rule : sheet.kind n = .rule := congrArg Content.kind (Sheet.content_of_selector? selector)
      rw [flipsBefore_succ holds, counted n rule, Nat.add_assoc]

theorem Mirrors.flipParams (c : Nat) : Mirrors sheet (fun _ => 0) run.scene (run.flipParams c).scene := by
  unfold Run.flipParams
  split
  · split
    · unfold Sheet.setParams
      split
      · rename_i content
        exact .setContent (by rw [Sheet.kind, content]; rfl) (by simp [Content.kind])
      · exact .of_eq rfl rfl rfl
    · exact .refl _
  · exact .refl _

/-- Automatic renaming flips the selector of the rule whose last declaration has just been visited. -/
theorem Mirrors.renameAround (holds : sheet.Holds whole) (lenient : options.autoRenameStrict = false)
    (declares : sheet.kind k = .declaration) (known : Uncut sheet run.scene.sheet)
    (inForce : run.scene.options = options) (flipped : run.flipped = actsSinceRule options sheet (k + 1)) :
    Mirrors sheet (fun n => if autoRenames options sheet n = true ∧ lastDeclaration? sheet n = some k then 1 else 0) run.scene
      (run.renameAround k).scene := by
  obtain ⟨gone, stripped⟩ := known
  have inner : sheet.kind k ≠ .comment := by simp [declares]
  have last : ∀ n, lastDeclaration? sheet n = some k ↔ sheet.parent k = some n ∧ sheet.isFinalOfKind k = true :=
    fun n => lastDeclaration?_eq_some_iff holds declares
  cases above : sheet.parent k with
  | none =>
    have unchanged : run.renameAround k = run := by
      simp only [Run.renameAround, stripped.parent_eq inner, above, ite_self]
    rw [unchanged]
    simpa [last, above] using Mirrors.refl run.scene
  | some rule =>
    have attached : run.scene.sheet.parent k = some rule := by rw [stripped.parent_eq inner, above]
    rw [renameAround_eq attached fun _ => by rw [inForce, lenient], inForce, flipped, stripped.isFinalOfKind_eq inner]
    have fires : ∀ n, (autoRenames options sheet n = true ∧ lastDeclaration? sheet n = some k) ↔
        n = rule ∧ options.autoRename = true ∧ actsSinceRule options sheet (k + 1) = 0 ∧ sheet.isFinalOfKind k = true := by
      intro n
      constructor
      · rintro ⟨renames, found⟩
        obtain ⟨up, final⟩ := (last n).mp found
        simp only [autoRenames, found, Option.any_some, Bool.and_eq_true, beq_iff_eq] at renames
        rw [above] at up
        exact ⟨(Option.some.inj up).symm, renames.1, renames.2, final⟩
      · rintro ⟨rfl, asked, none, final⟩
        have found := (last n).mpr ⟨above, final⟩
        exact ⟨by simp [autoRenames, asked, found, none], found⟩
    simp only [fires]
    split
    · rename_i wanted
      simp only [wanted, and_true]
      exact .flipSelector run.scene rule
    · rename_i unwanted
      simpa only [unwanted, and_false, if_false] using Mirrors.refl run.scene

/-- A declaration is rewritten or left alone, counts or does not, and is looked at as the last of its rule. -/
theorem flipDeclaration_renamed (holds : sheet.Holds whole) (lenient : options.autoRenameStrict = false) {decl : Declaration}
    (declares : sheet.content k = .declaration decl) (known : Uncut sheet run.scene.sheet)
    (inForce : run.scene.options = options) (flipped : run.flipped = actsSinceRule options sheet k)
    (content : run.scene.sheet.content k = .declaration decl) :
    let final := Run.flipDeclaration (engine options).registry run k
    Mirrors sheet (fun n => if autoRenames options sheet n = true ∧ lastDeclaration? sheet n = some k then 1 else 0) run.scene
        final.scene ∧ final.flipped = actsSinceRule options sheet (k + 1) := by
  have kind : sheet.kind k = .declaration := by
    rw [Sheet.kind, declares]
    rfl
  have acts : actsAt options sheet k = actsOn options decl := by simp [actsAt, Sheet.declaration?, declares]
  obtain ⟨written, uniform⟩ := exists_flipValue_eq options decl
  have rewrites := uniform run k inForce content
  have first : Mirrors sheet (fun _ => 0) run.scene (Run.flipValue (engine options).registry run k).scene := by
    rw [rewrites]
    split
    · exact .setContent (by rw [Sheet.kind, content]; rfl) (by simp [Content.kind])
    · exact .refl _
  have counted : (Run.flipValue (engine options).registry run k).flipped = actsSinceRule options sheet (k + 1) := by
    have other : ¬ sheet.kind k = .rule := by simp [kind]
    rw [rewrites, actsSinceRule, if_neg other, acts, ← flipped]
    cases actsOn options decl <;> rfl
  have inForceNext := first.inForce.trans inForce
  have second := Mirrors.renameAround holds lenient kind (first.uncut known) inForceNext counted
  exact ⟨first.trans second, (Run.counts_renameAround _ k).2.trans counted⟩

/-- The gate lets every node through; the selector of a rule is flipped there by all `rename`s that are open. -/
theorem Renamed.gate (inside : k < sheet.size) (reached : Reached sheet (IsLeaf sheet) k run)
    (renamed : Renamed options sheet opened k run) (counted : openRenames run = opened k) :
    let after := (run.gate k).2
    (run.gate k).1 = true ∧
      Mirrors sheet (fun n => if n = k ∧ sheet.kind k = .rule then opened k else 0) run.scene after.scene ∧
      after.flipped = run.flipped ∧ (∀ entry ∈ after.stack, IsRename sheet entry) ∧
      (sheet.kind k ≠ .rule → after.scene.sheet.content k = sheet.content k) := by
  have node : run.scene.sheet.content k = sheet.content k := by simp only [Sheet.content, reached.node_eq inside]
  have kind : run.scene.sheet.kind k = sheet.kind k := by simp only [Sheet.kind, node]
  have begun : Mirrors sheet (fun _ => 0) run.scene (run.marked k).scene := .of_eq rfl rfl rfl
  rw [Run.gate_eq_consult (reached.not_mem_handled inside), kind]
  by_cases rule : sheet.kind k = .rule
  · have all : opened k = run.stack.length := by
      rw [← counted]
      refine List.countP_eq_length.mpr fun entry member => ?_
      have isRename := renamed.renames entry member
      simp [isRename.name, isRename.control]
    obtain ⟨answer, flips, steady, stack⟩ := consult_renames renamed.renames k false [] (run.marked k)
    rw [rule, answer, all]
    refine ⟨rfl, ?_, steady, ?_, fun other => absurd rfl other⟩
    · simpa using begun.trans flips
    · exact fun entry member => renamed.renames entry (by simpa using stack entry member)
  · rw [consult_of_kind_ne renamed.renames rule]
    simp only [rule, and_false, if_false]
    exact ⟨rfl, begun, rfl, renamed.renames, fun _ => node⟩

/-- One visit. -/
theorem Renamed.visit (holds : sheet.Holds whole) (enabled : options.disables pluginName "rename".toList = false)
    (lenient : options.autoRenameStrict = false) (names : ∀ form ∈ formsAt sheet k, form.name = "rename".toList)
    (inside : k < sheet.size) (reached : Reached sheet (IsLeaf sheet) k run) (renamed : Renamed options sheet opened k run)
    (counted : openRenames run = opened k) : Renamed options sheet opened (k + 1) (Run.visit (engine options).registry run k) := by
  obtain ⟨passes, asked, steady, renames, content⟩ := renamed.gate inside reached counted
  have passed := reached.gate holds inside (isLeaf_none sheet) (isLeaf_lastBelow holds inside)
  have kind : (run.gate k).2.scene.sheet.kind k = sheet.kind k := by
    obtain ⟨gone, known⟩ := asked.uncut renamed.uncut
    exact known.kind k
  simp only [Run.visit, passes, if_true, kind]
  clear kind passes
  generalize (run.gate k).2 = after at *
  have inForce : after.scene.options = options := asked.inForce.trans renamed.inForce
  have counts : ∀ n, sheet.kind n = .rule →
      (if n = k ∧ sheet.kind k = .rule then opened k else 0) = if n = k then opened k else 0 := by
    intro n rule
    by_cases own : n = k
    · simp [own, own ▸ rule]
    · simp [own]
  -- What remains is to flip no selector, except at a declaration, and to count.
  have finish : ∀ {final : Run State}, sheet.kind k ≠ .declaration → Mirrors sheet (fun _ => 0) after.scene final.scene →
      (∀ entry ∈ final.stack, IsRename sheet entry) → final.flipped = (if sheet.kind k = .rule then 0 else after.flipped) →
      Renamed options sheet opened (k + 1) final := by
    intro final other mirrors known flipped
    have silent : actsAt options sheet k = false := by
      cases found : sheet.declaration? k with
      | none => simp [actsAt, found]
      | some decl => exact absurd (congrArg Content.kind (Sheet.content_of_declaration? found)) other
    refine renamed.of_mirrors holds (asked.trans mirrors) known ?_ ?_
    · rw [flipped, actsSinceRule, silent, steady, renamed.flipped]
      rfl
    · intro n rule
      have elsewhere : lastDeclaration? sheet n ≠ some k := fun found => other (of_lastDeclaration?_eq_some holds found).1
      simp [elsewhere, counts n rule]
  cases here : sheet.kind k with
  | comment =>
    have obeyed := Obeys.obeyComment enabled here passed.comment names inForce renames
    exact finish (by simp [here]) obeyed.mirrors (obeyed.renames renames) (by simp [here, obeyed.flipped])
  | rule => exact finish (by simp [here]) (.refl _) renames (by simp [here])
  | atRule =>
    have flipped : (after.flipParams k).flipped = after.flipped := by
      unfold Run.flipParams
      split
      · split <;> rfl
      · rfl
    exact finish (by simp [here]) (.flipParams k) (by rw [Run.stack_flipParams]; exact renames) (by simp [here, flipped])
  | root => exact finish (by simp [here]) (.refl _) renames (by simp [here])
  | declaration =>
    obtain ⟨decl, found⟩ := Sheet.exists_content_of_declaration here
    obtain ⟨flips, flipped⟩ := flipDeclaration_renamed holds lenient found (asked.uncut renamed.uncut) inForce
      (steady.trans renamed.flipped) ((content (by simp [here])).trans found)
    refine renamed.of_mirrors holds (asked.trans flips) ?_ flipped fun n rule => by rw [counts n rule]
    change ∀ entry ∈ ((Run.flipValue (engine options).registry after k).renameAround k).stack, IsRename sheet entry
    rw [Run.stack_renameAround, Run.stack_flipValue]
    exact renames

end

/-! ## The whole run -/

section
variable {options : Options} {sheet : Sheet} {whole : Item}

theorem renamed_start (opened : Nat → Nat) (holds : sheet.Holds whole) :
    Renamed options sheet opened Sheet.root ((engine options).start sheet) where
  uncut := ⟨[], .refl holds⟩
  inForce := rfl
  map := rfl
  renames := fun _ member => by cases member
  flipped := rfl
  selectors := fun n => by simp [flipsBefore, Sheet.root]

/-- The run comes to the nodes in their turn, with what is open at each of them. -/
theorem renamed_runAt {text : Text} (parsed : Sheet.parse text = .ok sheet) (holds : sheet.Holds whole)
    (enabled : options.disables pluginName "rename".toList = false) (lenient : options.autoRenameStrict = false)
    (names : ∀ node < sheet.size, ∀ form ∈ formsAt sheet node, form.name = "rename".toList) {k : Nat} (bounded : k ≤ sheet.size) :
    nodeAt options sheet k = k ∧
      Renamed options sheet (fun n => openRenames (runAt options sheet n)) k (runAt options sheet k) := by
  induction k with
  | zero => exact ⟨rfl, renamed_start _ holds⟩
  | succ k ih =>
    obtain ⟨number, renamed⟩ := ih (Nat.le_of_succ_le bounded)
    have inside : nodeAt options sheet k < sheet.size := by rw [number]; exact bounded
    have reached : Reached sheet (IsLeaf sheet) (nodeAt options sheet k) (runAt options sheet k) := reached_runAt holds k
    rw [number] at reached
    have visited := renamed.visit holds enabled lenient (names k bounded) bounded reached rfl
    have step := runAt_succ inside
    rw [number] at step
    rw [← step] at visited
    refine ⟨?_, visited⟩
    -- A comment may be cut off, but nothing stands below it.
    obtain ⟨gone, stripped⟩ := visited.uncut
    rw [nodeAt_succ inside, number, Run.resume]
    by_cases comment : sheet.kind k = .comment
    · rw [Sheet.stop_of_children_eq_nil (Sheet.children_of_comment parsed comment), ite_self]
    · rw [if_pos (stripped.parent_eq comment)]

theorem flipsBefore_size (holds : sheet.Holds whole) (opened : Nat → Nat) {rule : Nat} (inside : rule < sheet.size) :
    flipsBefore options sheet opened sheet.size rule = opened rule + if autoRenames options sheet rule then 1 else 0 := by
  rw [flipsBefore, if_pos inside]
  cases found : lastDeclaration? sheet rule with
  | none => simp [autoRenames, found]
  | some last => simp [(of_lastDeclaration?_eq_some holds found).2.2.1]

end

/-- In a sheet whose directive comments hold `rename` forms only, every rule is reached in its turn, and in the end its
selector has been flipped once for each `rename` that was open then, and once more if automatic renaming comes to it: that is
at its last declaration, if nothing counted as a flip since the last rule. Under exactly one `rename` the rule ends with the
flipped selector if and only if automatic renaming does not come to it or flipping again changes nothing. -/
theorem selector?_flip_eq_iterate {text : Text} {sheet : Sheet} (parsed : Sheet.parse text = .ok sheet) {options : Options}
    (enabled : options.disables pluginName "rename".toList = false) (lenient : options.autoRenameStrict = false)
    (names : ∀ node < sheet.size, ∀ form ∈ formsAt sheet node, form.name = "rename".toList) {rule : Nat} {selector : Text}
    (isRule : sheet.selector? rule = some selector) :
    let flip := options.map.apply .selector
    let opened := openRenames (runAt options sheet rule)
    let result := ((engine options).flip sheet).1.selector? rule
    nodeAt options sheet rule = rule ∧
    result = some (flip^[opened + if autoRenames options sheet rule then 1 else 0] selector) ∧
    (opened = 1 →
      (result = some (flip selector) ↔ autoRenames options sheet rule = false ∨ flip (flip selector) = flip selector)) := by
  intro flip opened result
  obtain ⟨items, trailing, _, holds⟩ := Sheet.exists_holds_of_parse parsed
  have inside : rule < sheet.size := Sheet.lt_size_of_content_ne (by rw [Sheet.content_of_selector? isRule]; simp)
  obtain ⟨number, _⟩ := renamed_runAt parsed holds enabled lenient names (Nat.le_of_lt inside)
  obtain ⟨_, final⟩ := renamed_runAt parsed holds enabled lenient names (Nat.le_refl sheet.size)
  have outcome : result = some (flip^[opened + if autoRenames options sheet rule then 1 else 0] selector) := by
    have own := final.selectors rule
    rw [runAt_size options holds, flipsBefore_size holds _ inside, isRule] at own
    exact own
  refine ⟨number, outcome, fun one => ?_⟩
  rw [outcome, one]
  cases autoRenames options sheet rule with
  | false => simp
  | true => simp

/-- A value directive keeps automatic renaming away from the rule, so it ends with the flipped selector. -/
theorem selector?_flip_eq_iterate_marked :
    ∃ sheet, Sheet.parse "/*rtl:begin:rename*/.left\x7bleft:0/*rtl:ignore*/\x7d/*rtl:end:rename*/".toList = .ok sheet ∧
      let options : Options := { autoRename := true }
      options.disables pluginName "rename".toList = false ∧ options.autoRenameStrict = false ∧
      (∀ node < sheet.size, ∀ form ∈ formsAt sheet node, form.name = "rename".toList) ∧
      sheet.selector? 2 = some ".left".toList ∧ openRenames (runAt options sheet 2) = 1 ∧
      autoRenames options sheet 2 = false ∧
      ((engine options).flip sheet).1.selector? 2 = some (options.map.apply .selector ".left".toList) := by
  let options : Options := { autoRename := true }
  obtain ⟨sheet, parsed, test⟩ := Sheet.exists_of_readable
    (by decide +kernel : (Sheet.parse "/*rtl:begin:rename*/.left\x7bleft:0/*rtl:ignore*/\x7d/*rtl:end:rename*/".toList).toOption.any
      (fun sheet => (List.range sheet.size).all (fun node => (formsAt sheet node).all (·.name == "rename".toList)) &&
        sheet.selector? 2 == some ".left".toList && openRenames (runAt options sheet 2) == 1 &&
        !autoRenames options sheet 2) = true)
  simp only [Bool.and_eq_true, beq_iff_eq, List.all_eq_true, List.mem_range, Bool.not_eq_eq_eq_not, Bool.not_true] at test
  obtain ⟨⟨⟨names, isRule⟩, one⟩, alone⟩ := test
  obtain ⟨_, _, once⟩ := selector?_flip_eq_iterate parsed (rfl : options.disables pluginName "rename".toList = false) rfl names isRule
  exact ⟨sheet, parsed, rfl, rfl, names, isRule, one, alone, (once one).mpr (.inl alone)⟩

/-- The `rename` flips the selector, and automatic renaming flips it back. -/
theorem flips_selector_back :
    ∃ sheet, Sheet.parse "/*rtl:rename*/.left\x7bcolor:red\x7d".toList = .ok sheet ∧
      let options : Options := { autoRename := true }
      openRenames (runAt options sheet 2) = 1 ∧ sheet.selector? 2 = some ".left".toList ∧
      options.map.apply .selector ".left".toList = ".right".toList ∧
      ((engine options).flip sheet).1.selector? 2 = some ".left".toList := by
  let options : Options := { autoRename := true }
  let map : StringMap := ⟨defaultStringMap.map fun entry => (entry, entry.swaps false)⟩
  obtain ⟨sheet, parsed, test⟩ := Sheet.exists_of_readable
    (by decide +kernel : (Sheet.parse "/*rtl:rename*/.left\x7bcolor:red\x7d".toList).toOption.any (fun sheet =>
      openRenames (runAt options sheet 2) == 1 && sheet.selector? 2 == some ".left".toList &&
        (Run.traverse (engine options).registry { store := {}, scene := { sheet, options, map } }).scene.sheet.selector? 2 ==
          some ".left".toList) = true)
  simp only [Bool.and_eq_true, beq_iff_eq] at test
  obtain ⟨⟨one, isRule⟩, back⟩ := test
  have begun : (engine options).start sheet = { store := {}, scene := { sheet, options, map } } := start_of_default rfl sheet
  have inForce : options.map = map := congrArg (·.scene.map) begun
  refine ⟨sheet, parsed, one, isRule, ?_, ?_⟩
  · change options.map.apply .selector ".left".toList = ".right".toList
    rw [inForce]
    decide +kernel
  · rw [← begun] at back
    exact back

end StyleFlip.Standard
