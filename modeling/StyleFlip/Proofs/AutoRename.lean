import StyleFlip.Proofs.DirectiveFree

/-!
Automatic renaming. Whether the selector of a rule is exchanged is decided at its last declaration by the flips since the
last rule began, which need not be the rule itself: a rule nested in front of that declaration makes earlier flips
forgotten, and flips in at-rules nested there count although they are not the rule's own. The selector therefore follows
the rule's own declarations exactly if the two ways of counting agree or the selector is its own flipped form
(`selector?_flip_eq_own_iff`). They agree where no rule and no flipped declaration of another block stands in between.
-/
namespace StyleFlip.Standard

/-- Whether none of the declarations directly below a rule is flipped. -/
def ownUnflipped (options : Options) (sheet : Sheet) (rule : Nat) : Bool :=
  (sheet.children rule).all fun child => !isFlipped options sheet child

/-- Every flip up to a declaration is forgotten there: a rule has begun since. -/
def Forgotten (options : Options) (sheet : Sheet) (last : Nat) : Prop :=
  ∀ n, n ≤ last → isFlipped options sheet n = true → ∃ rule, n < rule ∧ rule ≤ last ∧ sheet.kind rule = .rule

section
variable {options : Options} {sheet : Sheet} {whole : Item}

/-- Nothing was flipped since the last rule began if every flipped declaration has a rule after it. -/
theorem flipsSinceRule_eq_zero_iff (k : Nat) :
    flipsSinceRule options sheet k = 0 ↔
      ∀ n, n < k → isFlipped options sheet n = true → ∃ rule, n < rule ∧ rule < k ∧ sheet.kind rule = .rule := by
  induction k with
  | zero => simp [flipsSinceRule]
  | succ k ih =>
    by_cases fresh : sheet.kind k = .rule
    · have unflipped : isFlipped options sheet k = false := isFlipped_of_kind_ne (by simp [fresh])
      simp only [flipsSinceRule, fresh, if_true, true_iff]
      intro n low flipped
      have : n ≠ k := by
        rintro rfl
        rw [unflipped] at flipped
        cases flipped
      exact ⟨k, by omega, by omega, fresh⟩
    · simp only [flipsSinceRule, if_neg fresh, Nat.add_eq_zero_iff, ih]
      constructor
      · rintro ⟨earlier, now⟩ n low flipped
        by_cases own : n = k
        · subst own
          simp [flipped] at now
        · obtain ⟨rule, after, before, isRule⟩ := earlier n (by omega) flipped
          exact ⟨rule, after, by omega, isRule⟩
      · intro all
        refine ⟨?_, ?_⟩
        · intro n low flipped
          obtain ⟨rule, after, before, isRule⟩ := all n (by omega) flipped
          have : rule ≠ k := by
            rintro rfl
            exact fresh isRule
          exact ⟨rule, after, by omega, isRule⟩
        · by_cases flipped : isFlipped options sheet k = true
          · obtain ⟨rule, after, before, _⟩ := all k (by omega) flipped
            omega
          · simp [flipped]

theorem flipsSinceRule_succ_eq_zero_iff (last : Nat) :
    flipsSinceRule options sheet (last + 1) = 0 ↔ Forgotten options sheet last := by
  simp only [flipsSinceRule_eq_zero_iff, Nat.lt_succ_iff, Forgotten]

/-- The selector of a rule is exchanged if nothing was flipped between the last rule and its last declaration. -/
theorem selector?_flip (holds : sheet.Holds whole) (free : directiveFree sheet = true) (asked : options.autoRename = true)
    (lenient : options.autoRenameStrict = false) {rule last : Nat} {selector : Text}
    (isRule : sheet.selector? rule = some selector) (found : lastDeclaration? sheet rule = some last) :
    ((engine options).flip sheet).1.selector? rule =
      some (if flipsSinceRule options sheet (last + 1) = 0 then options.map.apply .selector selector else selector) := by
  obtain ⟨run, visited, result, _⟩ := visited_flip holds free fun _ => lenient
  obtain ⟨_, before, inside, _⟩ := of_lastDeclaration?_eq_some holds found
  have content : sheet.content rule = .rule selector := Sheet.content_of_selector? isRule
  have reached : rule < sheet.size := Nat.lt_trans before inside
  rw [result, Sheet.selector?, visited.content_eq, content]
  by_cases none : flipsSinceRule options sheet (last + 1) = 0
  · simp [contentAt, reached, isRenamed, asked, found, inside, none, flipContent, flipSelector]
  · simp [contentAt, reached, isRenamed, asked, found, inside, none, flipContent]

/-- The declarations of a rule do not come after its last one. -/
theorem le_lastDeclaration? (holds : sheet.Holds whole) {rule last child : Nat} (found : lastDeclaration? sheet rule = some last)
    (member : child ∈ sheet.children rule) (declares : sheet.kind child = .declaration) : child ≤ last := by
  have increasing : ((sheet.children rule).filter fun child => sheet.kind child == .declaration).Pairwise (· < ·) :=
    (holds.children_increasing rule).filter _
  have listed : child ∈ (sheet.children rule).filter fun child => sheet.kind child == .declaration :=
    List.mem_filter.mpr ⟨member, by simp [declares]⟩
  obtain ⟨front, split⟩ := List.getLast?_eq_some_iff.mp found
  rw [split] at increasing listed
  rcases List.mem_append.mp listed with inFront | isLast
  · exact Nat.le_of_lt ((List.pairwise_append.mp increasing).2.2 child inFront last (List.mem_singleton.mpr rfl))
  · exact Nat.le_of_eq (List.mem_singleton.mp isLast)

/-- Where no rule and no flipped declaration of another block stands between a rule and its last declaration, the flips
since the last rule are those of its own declarations. -/
theorem ownUnflipped_iff_of_flat (holds : sheet.Holds whole) {rule last : Nat} (isRule : sheet.kind rule = .rule)
    (found : lastDeclaration? sheet rule = some last)
    (flat : ∀ n, rule < n → n < last →
      sheet.kind n ≠ .rule ∧ (isFlipped options sheet n = true → sheet.parent n = some rule)) :
    ownUnflipped options sheet rule = true ↔ Forgotten options sheet last := by
  obtain ⟨declares, before, _, attached⟩ := of_lastDeclaration?_eq_some holds found
  have own : ownUnflipped options sheet rule = true ↔ ∀ child ∈ sheet.children rule, isFlipped options sheet child = false := by
    simp [ownUnflipped]
  rw [own]
  constructor
  · intro unflipped n low flipped
    have notBelow : sheet.parent n ≠ some rule := by
      intro below
      rw [unflipped n (holds.mem_children below)] at flipped
      cases flipped
    have notRule : n ≠ rule := by
      rintro rfl
      rw [isFlipped_of_kind_ne (by simp [isRule])] at flipped
      cases flipped
    have notLast : n ≠ last := fun same => notBelow (same ▸ attached)
    by_cases earlier : n < rule
    · exact ⟨rule, earlier, by omega, isRule⟩
    · exact absurd ((flat n (by omega) (by omega)).2 flipped) notBelow
  · intro since child member
    obtain ⟨after, _, _⟩ := holds.of_mem_children member
    by_cases flipped : isFlipped options sheet child = true
    · have reached := le_lastDeclaration? holds found member (kind_of_isFlipped flipped)
      obtain ⟨other, low, high, isOther⟩ := since child reached flipped
      have notLast : other ≠ last := by
        rintro rfl
        rw [isOther] at declares
        cases declares
      exact absurd isOther (flat other (by omega) (by omega)).1
    · simpa using flipped

end

/-- With automatic renaming outside strict mode, the selector of a rule with declarations is exchanged exactly if every
flip up to its last declaration is forgotten there. So it follows the rule's own declarations if and only if it is its own
flipped form or the forgotten flips are just the absent ones; this is so wherever no rule and no flipped declaration of
another block stands between the rule and its last declaration. -/
theorem selector?_flip_eq_own_iff {text : Text} {sheet : Sheet} (parsed : Sheet.parse text = .ok sheet)
    (free : directiveFree sheet = true) {options : Options} (asked : options.autoRename = true)
    (lenient : options.autoRenameStrict = false) {rule last : Nat} {selector : Text}
    (isRule : sheet.selector? rule = some selector) (found : lastDeclaration? sheet rule = some last) :
    let result := ((engine options).flip sheet).1.selector? rule
    let mirrored := options.map.apply .selector selector
    let own := if ownUnflipped options sheet rule then mirrored else selector
    (Forgotten options sheet last → result = some mirrored) ∧
    (¬ Forgotten options sheet last → result = some selector) ∧
    (result = some own ↔
      mirrored = selector ∨ (ownUnflipped options sheet rule = true ↔ Forgotten options sheet last)) ∧
    ((∀ n, rule < n → n < last →
        sheet.kind n ≠ .rule ∧ (isFlipped options sheet n = true → sheet.parent n = some rule)) → result = some own) := by
  obtain ⟨items, trailing, _, holds⟩ := Sheet.exists_holds_of_parse parsed
  intro result mirrored own
  have kind : sheet.kind rule = .rule := congrArg Content.kind (Sheet.content_of_selector? isRule)
  have outcome := selector?_flip holds free asked lenient isRule found
  have exchanged : Forgotten options sheet last → result = some mirrored := by
    intro forgotten
    rw [← flipsSinceRule_succ_eq_zero_iff] at forgotten
    rwa [if_pos forgotten] at outcome
  have kept : ¬ Forgotten options sheet last → result = some selector := by
    intro remembered
    rw [← flipsSinceRule_succ_eq_zero_iff] at remembered
    rwa [if_neg remembered] at outcome
  have agrees : result = some own ↔
      mirrored = selector ∨ (ownUnflipped options sheet rule = true ↔ Forgotten options sheet last) := by
    by_cases forgotten : Forgotten options sheet last
    · rw [exchanged forgotten]
      by_cases unflipped : ownUnflipped options sheet rule = true
      · simp [own, unflipped, forgotten]
      · simp [own, unflipped, forgotten]
    · rw [kept forgotten]
      by_cases unflipped : ownUnflipped options sheet rule = true
      · simp [own, unflipped, forgotten, eq_comm]
      · simp [own, unflipped, forgotten]
  exact ⟨exchanged, kept, agrees, fun flat => agrees.mpr (.inr (ownUnflipped_iff_of_flat holds kind found flat))⟩

/-- A rule with a flipped declaration in front of its last one, between which stand an at-rule with a declaration of its own and
a comment. It keeps its selector, although an earlier rule has begun and flipped a declaration. -/
theorem selector?_flip_eq_own_nested :
    ∃ sheet, Sheet.parse ".x{right:0}@media x{.left{left:0;@media y{top:0}/*c*/color:red}}".toList = .ok sheet ∧
      let options : Options := { autoRename := true }
      directiveFree sheet = true ∧ sheet.selector? 4 = some ".left".toList ∧ lastDeclaration? sheet 4 = some 9 ∧
      (∀ n : Nat, 4 < n → n < 9 → sheet.kind n ≠ .rule ∧ (isFlipped options sheet n = true → sheet.parent n = some 4)) ∧
      ownUnflipped options sheet 4 = false ∧
      ((engine options).flip sheet).1.selector? 4 = some ".left".toList := by
  let options : Options := { autoRename := true }
  obtain ⟨sheet, parsed, test⟩ := Sheet.exists_of_readable
    (by cbv : (Sheet.parse ".x{right:0}@media x{.left{left:0;@media y{top:0}/*c*/color:red}}".toList).toOption.any (fun sheet =>
      directiveFree sheet && sheet.selector? 4 == some ".left".toList && lastDeclaration? sheet 4 == some 9 &&
        (([5, 6, 7, 8] : List Nat).all fun n => sheet.kind n != .rule && (!isFlipped options sheet n || sheet.parent n == some 4)) &&
        !ownUnflipped options sheet 4) = true)
  simp only [Bool.and_eq_true, beq_iff_eq, List.all_eq_true, Bool.not_eq_eq_eq_not, Bool.not_true, bne_iff_ne, Bool.or_eq_true]
    at test
  obtain ⟨⟨⟨⟨free, isRule⟩, found⟩, between⟩, own⟩ := test
  have flat : ∀ n : Nat, 4 < n → n < 9 → sheet.kind n ≠ .rule ∧ (isFlipped options sheet n = true → sheet.parent n = some 4) := by
    intro n low high
    obtain ⟨other, flips⟩ := between n (by simp only [List.mem_cons, List.not_mem_nil]; omega)
    exact ⟨other, fun flipped => flips.resolve_left (by simp [flipped])⟩
  have kept := (selector?_flip_eq_own_iff parsed free (rfl : options.autoRename = true) rfl isRule found).2.2.2 flat
  rw [own, if_neg Bool.false_ne_true] at kept
  exact ⟨sheet, parsed, free, isRule, found, flat, own, kept⟩

/-- A nested rule makes a flip in front of it forgotten: the selector is exchanged although a declaration of the rule
itself was flipped. -/
theorem selector?_flip_forgets_own :
    ∃ sheet, Sheet.parse ".left{left:0;.x{color:red}color:red}".toList = .ok sheet ∧ directiveFree sheet = true ∧
      sheet.selector? 1 = some ".left".toList ∧ ownUnflipped { autoRename := true } sheet 1 = false ∧
      ((engine { autoRename := true }).flip sheet).1.selector? 1 = some ".right".toList := by
  let options : Options := { autoRename := true }
  let left : Declaration :=
    { property := "left".toList, between := ":".toList, value := "0".toList, raw := none, important := none }
  let color : Declaration :=
    { property := "color".toList, between := ":".toList, value := "red".toList, raw := none, important := none }
  let sheet : Sheet := ⟨#[{ content := .root, children := [1] },
    { content := .rule ".left".toList, parent := some 0, children := [2, 3, 5] },
    { content := .declaration left, spacing := { semicolon := true }, parent := some 1 },
    { content := .rule ".x".toList, parent := some 1, children := [4] },
    { content := .declaration color, parent := some 3 }, { content := .declaration color, parent := some 1 }]⟩
  have parsed : Sheet.parse ".left{left:0;.x{color:red}color:red}".toList = .ok sheet := by cbv
  have free : directiveFree sheet = true := by cbv
  have flipped : (flipped? options left).isSome = true := by
    have aside : Text.setAside left.written = ("0".toList, []) := by cbv
    have name : (options.alias? left.property).getD left.property = "left".toList := rfl
    simp only [flipped?, name, aside, answer?_left]
    rfl
  have unflipped : flipped? options color = none := by
    have name : (options.alias? color.property).getD color.property = "color".toList := rfl
    have unanswered : ∀ value, answer? "color".toList value = none := fun _ => rfl
    simp only [flipped?, name, unanswered]
  have own : ownUnflipped options sheet 1 = false := by
    have first : isFlipped options sheet 2 = true := flipped
    have children : sheet.children 1 = [2, 3, 5] := rfl
    simp [ownUnflipped, children, first]
  have since : flipsSinceRule options sheet 6 = 0 := by
    have nested : isFlipped options sheet 4 = false := congrArg Option.isSome unflipped
    have final : isFlipped options sheet 5 = false := congrArg Option.isSome unflipped
    have kinds : sheet.kind 3 = .rule ∧ sheet.kind 4 = .declaration ∧ sheet.kind 5 = .declaration := ⟨rfl, rfl, rfl⟩
    simp [flipsSinceRule, nested, final, kinds]
  have mirrored : options.map.apply .selector ".left".toList = ".right".toList := by
    have map : options.map = ⟨defaultStringMap.map fun entry => (entry, entry.swaps false)⟩ := by cbv
    rw [map]
    decide +kernel
  obtain ⟨items, trailing, _, holds⟩ := Sheet.exists_holds_of_parse parsed
  have isRule : sheet.selector? 1 = some ".left".toList := rfl
  have found : lastDeclaration? sheet 1 = some 5 := rfl
  have outcome := selector?_flip holds free (rfl : options.autoRename = true) rfl isRule found
  rw [if_pos since, mirrored] at outcome
  exact ⟨sheet, parsed, free, isRule, own, outcome⟩

end StyleFlip.Standard
