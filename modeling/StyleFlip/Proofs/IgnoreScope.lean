import StyleFlip.Proofs.Locality

/-!
How far an `ignore` of one form reaches. Asked about a node for the first time, it notes the last node below that one as its
goal, in a place that all `ignore`s share (`goalAt`). Until the goal has been visited it claims every node except a closing
comment, and the visit to the goal closes it together with all others of its form (`consult_oneShots`). So along the steps of
a run (`nodeAt`, `runAt`) it is open exactly as long as its goal has not come up (`mem_stack_iff`), and nowhere behind the
subtree that it is about, as long as no node is cut off with the goal below it (`mem_stack_bounds`). Main statement:
`ignore_reach`.
-/
namespace StyleFlip.Standard

/-- Whether an open directive is an `ignore` of one form that is not switched off. -/
def isOneShotIgnore (entry : OpenDirective State) : Bool :=
  entry.invocation.name == "ignore".toList && entry.invocation.opensAndCloses && entry.control.isSome

/-- Whether a node is a comment that starts with the form that closes blocks of ignored nodes. -/
def closesIgnoreAt (sheet : Sheet) (node : Nat) : Bool := (sheet.comment? node).any Directive.closesIgnore

theorem control_of_isOneShotIgnore {entry : OpenDirective State} (genuine : Genuine entry)
    (oneShot : isOneShotIgnore entry = true) : entry.control = some (ignore (.whole State)) := by
  simp only [isOneShotIgnore, Bool.and_eq_true, beq_iff_eq, Option.isSome_iff_exists] at oneShot
  obtain ⟨⟨named, _⟩, control, found⟩ := oneShot
  obtain ⟨member, same⟩ := genuine.control control found
  rw [named] at same
  obtain rfl | rfl | rfl | rfl | rfl := control_cases member
  · exact found
  · exact absurd same (by decide)
  · exact absurd same (by decide)
  · exact absurd same (by decide)
  · exact absurd same (by decide)

section
variable {sheet : Sheet} {whole : Item} {allowed : Option Nat → Prop} {c : Nat} {earlier : List (OpenDirective State)}
  {run : Run State}

/-- The node that open `ignore`s of one form end at: the noted one, or else the last below the node they are asked about. -/
def goalAt (sheet : Sheet) (c : Nat) (run : Run State) : Nat := run.store.ignoreEnd.getD (sheet.lastBelow c)

/-- An `ignore` of one form notes the node that it ends at, claims every node but a closing comment, and closes where it
ends. -/
theorem ask_of_isOneShotIgnore (holds : sheet.Holds whole) (inside : c < sheet.size)
    (during : During sheet allowed c earlier run) {kind : Kind} (inner : kind ≠ .root) {entry : OpenDirective State}
    (genuine : Genuine entry) (oneShot : isOneShotIgnore entry = true) :
    (Run.ask c kind entry run).2 = (!closesIgnoreAt sheet c, decide (goalAt sheet c run = c)) ∧
      (Run.ask c kind entry run).1.store.ignoreEnd =
        if goalAt sheet c run = c then none else some (goalAt sheet c run) := by
  have control := control_of_isOneShotIgnore genuine oneShot
  have accepts : (ignore (.whole State)).interest.accepts kind = true := by
    cases kind with
    | root => exact absurd rfl inner
    | _ => rfl
  have both : entry.invocation.opens = true ∧ entry.invocation.closes = true := by
    simp only [isOneShotIgnore, Invocation.opensAndCloses, Bool.and_eq_true] at oneShot
    exact oneShot.1.2
  -- Entering notes the goal, whether or not it was noted before; leaving compares it with the node.
  have entered : enterIgnore (.whole State) c entry.invocation run.store run.scene =
      (!closesIgnoreAt sheet c, { run.store with ignoreEnd := some (goalAt sheet c run) }, run.scene) := by
    simp only [enterIgnore, Slot.whole, id, Invocation.opensAndCloses, both, Bool.and_self, Bool.and_true,
      during.lastBelow_eq holds inside, during.comment, closesIgnoreAt, goalAt]
    generalize run.store = store
    obtain ⟨noted, saved⟩ := store
    cases noted <;> rfl
  have left : ∀ store : State, leaveIgnore (.whole State) c entry.invocation store run.scene =
      if store.ignoreEnd = some c then (true, { store with ignoreEnd := none }, run.scene) else (false, store, run.scene) := by
    intro store
    simp [leaveIgnore, Slot.whole, Invocation.opensAndCloses, both]
  have asked : Run.ask c kind entry run =
      let within := run.call (enterIgnore (.whole State) c entry.invocation)
      let after := within.2.call (leaveIgnore (.whole State) c entry.invocation)
      (after.2, within.1, after.1) := by
    unfold Run.ask
    simp only [control, accepts, both, if_true]
    rfl
  rw [asked]
  simp only [Run.call, entered, left, Option.some.injEq]
  by_cases here : goalAt sheet c run = c <;> simp [here]

/-- Other directives leave the noted node alone. -/
theorem ask_of_not_isOneShotIgnore {kind : Kind} {entry : OpenDirective State} (genuine : Genuine entry)
    (other : isOneShotIgnore entry = false) : (Run.ask c kind entry run).1.store.ignoreEnd = run.store.ignoreEnd := by
  unfold Run.ask
  split
  · rfl
  · rename_i control found
    obtain ⟨member, named⟩ := genuine.control control found
    obtain rfl | rfl | rfl | rfl | rfl := control_cases member
    · -- An `ignore` that is not of one form is a block, which only its closing comment ends.
      have name : entry.invocation.name = "ignore".toList := named.symm
      have block : entry.invocation.closes = false := by
        simpa [isOneShotIgnore, Invocation.opensAndCloses, genuine.opens, found, name] using other
      have kept : (run.call (enterIgnore (.whole State) c entry.invocation)).2.store.ignoreEnd = run.store.ignoreEnd := by
        simp [Run.call, enterIgnore, Invocation.opensAndCloses, block]
      simp only [block, Bool.false_eq_true, if_false]
      split
      · exact kept
      · rfl
    · have kept : (run.call (enterRename c entry.invocation)).2.store = run.store := by
        simp only [Run.call, enterRename]
        split <;> rfl
      simp only
      split
      · split <;> exact congrArg State.ignoreEnd kept
      · rfl
    · simp only
      split
      · split <;> rfl
      · rfl
    · rfl
    · rfl

/-- Where one ends is where the next one ends too. -/
theorem goalAt_ask (holds : sheet.Holds whole) (inside : c < sheet.size) (during : During sheet allowed c earlier run)
    {kind : Kind} (inner : kind ≠ .root) {entry : OpenDirective State} (genuine : Genuine entry)
    (leaf : goalAt sheet c run = c → sheet.lastBelow c = c) :
    goalAt sheet c (Run.ask c kind entry run).1 = goalAt sheet c run := by
  cases oneShot : isOneShotIgnore entry with
  | true =>
    obtain ⟨_, noted⟩ := ask_of_isOneShotIgnore holds inside during inner genuine oneShot
    by_cases here : goalAt sheet c run = c
    · rw [if_pos here] at noted
      rw [here, goalAt, noted]
      exact leaf here
    · rw [if_neg here] at noted
      rw [goalAt, noted]
      rfl
  | false => simp only [goalAt, ask_of_not_isOneShotIgnore genuine oneShot]

/-- Open `ignore`s of one form close all together or not at all, and claim every node but a closing comment. -/
theorem consult_oneShots (holds : sheet.Holds whole) (inside : c < sheet.size) (clear : allowed none)
    (last : allowed (some (sheet.lastBelow c))) {kind : Kind} (inner : kind ≠ .root)
    {entries kept : List (OpenDirective State)} (during : During sheet allowed c earlier run)
    (known : ∀ entry ∈ kept ++ entries, entry ∈ run.stack) (leaf : goalAt sheet c run = c → sheet.lastBelow c = c)
    (claimed : Bool) :
    let after := Run.consult c kind kept claimed entries run
    (∀ entry, isOneShotIgnore entry = true →
      (entry ∈ after.2.stack ↔ entry ∈ kept ∨ entry ∈ entries ∧ goalAt sheet c run ≠ c)) ∧
    (after.2.store.ignoreEnd =
      if entries.any isOneShotIgnore then if goalAt sheet c run = c then none else some (goalAt sheet c run)
      else run.store.ignoreEnd) ∧
    (claimed = true ∨ entries.any isOneShotIgnore = true ∧ closesIgnoreAt sheet c = false → after.1 = true) := by
  induction entries generalizing run kept claimed with
  | nil => simp [Run.consult]
  | cons first rest ih =>
    obtain ⟨source, genuine⟩ := during.stack first (known first (by simp))
    have goal := goalAt_ask holds inside during inner genuine leaf
    have asked := during.ask holds inside clear last kind genuine
    have same := Run.stack_ask c kind first run
    have own : isOneShotIgnore first = true →
        (Run.ask c kind first run).2 = (!closesIgnoreAt sheet c, decide (goalAt sheet c run = c)) ∧
          (Run.ask c kind first run).1.store.ignoreEnd =
            if goalAt sheet c run = c then none else some (goalAt sheet c run) :=
      ask_of_isOneShotIgnore holds inside during inner genuine
    have others : isOneShotIgnore first = false → (Run.ask c kind first run).1.store.ignoreEnd = run.store.ignoreEnd :=
      ask_of_not_isOneShotIgnore genuine
    rw [Run.consult_cons]
    generalize Run.ask c kind first run = outcome at *
    obtain ⟨after, claims, closed⟩ := outcome
    simp only at *
    -- Closed or not, the rest is asked with the directives that stay open and the same noted node.
    obtain ⟨front, next, outcome, duringNext, knownNext, store, stays⟩ :
        ∃ front next, (if closed then Run.consult c kind kept (claimed || claims) rest (after.endDirective first (kept ++ rest))
            else Run.consult c kind (kept ++ [first]) (claimed || claims) rest after) =
              Run.consult c kind front (claimed || claims) rest next ∧
          During sheet allowed c earlier next ∧ (∀ other ∈ front ++ rest, other ∈ next.stack) ∧
          next.store = after.store ∧ ∀ entry, entry ∈ front ↔ entry ∈ kept ∨ entry = first ∧ closed = false := by
      have fewer : ∀ other ∈ kept ++ rest, other ∈ after.stack := by grind
      cases closed with
      | true =>
        refine ⟨kept, _, rfl, asked.endDirective holds inside (Nat.le_of_lt_succ source) fewer, ?_, Run.store_endDirective _ _ _, ?_⟩
        · rw [Run.stack_endDirective]
          exact fun _ member => member
        · simp
      | false => exact ⟨kept ++ [first], after, rfl, asked, by grind, rfl, by simp⟩
    have goalNext : goalAt sheet c next = goalAt sheet c run := by
      rw [← goal]
      simp only [goalAt, store]
    obtain ⟨stack, noted, claimedAfter⟩ := ih duringNext knownNext (by rw [goalNext]; exact leaf) (claimed || claims)
    rw [goalNext] at stack noted
    rw [outcome]
    refine ⟨?_, ?_, ?_⟩
    · intro entry oneShot
      rw [stack entry oneShot, stays]
      grind
    · rw [noted, store]
      grind
    · grind

theorem gate_of_mem_stack (holds : sheet.Holds whole) (inside : c < sheet.size) (inner : sheet.kind c ≠ .root)
    (reached : Reached sheet (IsLeaf sheet) c run) {entry : OpenDirective State} (isOpen : entry ∈ run.stack)
    (oneShot : isOneShotIgnore entry = true) :
    (entry ∈ (run.gate c).2.stack ↔ goalAt sheet c run ≠ c) ∧
    (run.gate c).2.store.ignoreEnd = (if goalAt sheet c run = c then none else some (goalAt sheet c run)) ∧
    (closesIgnoreAt sheet c = false → (run.gate c).1 = false) := by
  have leaf : goalAt sheet c (run.marked c) = c → sheet.lastBelow c = c := by
    intro here
    have noted := reached.noted
    change run.store.ignoreEnd.getD (sheet.lastBelow c) = c at here
    cases mark : run.store.ignoreEnd with
    | none => rwa [mark] at here
    | some n =>
      rw [mark] at here
      obtain rfl : n = c := here
      exact Nat.succ.inj (noted n mark).2
  have kind : run.scene.sheet.kind c = sheet.kind c := by simp only [Sheet.kind, Sheet.content, reached.node_eq inside]
  have present : run.stack.any isOneShotIgnore = true := List.any_eq_true.mpr ⟨entry, isOpen, oneShot⟩
  have known : ∀ other ∈ [] ++ run.stack, other ∈ (run.marked c).stack := fun other member => member
  obtain ⟨stack, noted, claimed⟩ := consult_oneShots holds inside (isLeaf_none sheet) (isLeaf_lastBelow holds inside)
    (kind ▸ inner) (reached.during inside) known leaf false
  rw [Run.gate_eq_consult (reached.not_mem_handled inside)]
  refine ⟨?_, ?_, ?_⟩
  · rw [stack entry oneShot]
    simp [isOpen, goalAt, Run.marked]
  · rw [noted, if_pos present]
    rfl
  · intro silent
    simp [claimed (.inr ⟨present, silent⟩)]

/-- While an `ignore` of one form is open, a visit does nothing but ask, except at a closing comment. -/
theorem visit_of_mem_stack (holds : sheet.Holds whole) (inside : c < sheet.size) (inner : sheet.kind c ≠ .root)
    (reached : Reached sheet (IsLeaf sheet) c run) {entry : OpenDirective State} (isOpen : entry ∈ run.stack)
    (oneShot : isOneShotIgnore entry = true) (options : Options) (silent : closesIgnoreAt sheet c = false) :
    Run.visit (engine options).registry run c = (run.gate c).2 := by
  obtain ⟨_, _, claimed⟩ := gate_of_mem_stack holds inside inner reached isOpen oneShot
  simp only [Run.visit, claimed silent, Bool.false_eq_true, if_false]

/-- An `ignore` of one form that is still open after a visit does not end at the visited node, and the node that it ends
at is noted or forgotten. -/
theorem of_mem_stack_visit (holds : sheet.Holds whole) (inside : c < sheet.size) (inner : sheet.kind c ≠ .root)
    (reached : Reached sheet (IsLeaf sheet) c run) {entry : OpenDirective State} (isOpen : entry ∈ run.stack)
    (oneShot : isOneShotIgnore entry = true) (options : Options)
    (stays : entry ∈ (Run.visit (engine options).registry run c).stack) :
    goalAt sheet c run ≠ c ∧
      ((Run.visit (engine options).registry run c).store.ignoreEnd = some (goalAt sheet c run) ∨
        (Run.visit (engine options).registry run c).store.ignoreEnd = none) := by
  obtain ⟨stack, noted, claimed⟩ := gate_of_mem_stack holds inside inner reached isOpen oneShot
  have passed := reached.gate holds inside (isLeaf_none sheet) (isLeaf_lastBelow holds inside)
  -- What the gate leaves is kept by the forms of the comment, except that they may forget the noted node.
  have forms : During sheet (fun mark => mark = (run.gate c).2.store.ignoreEnd ∨ mark = none) c (run.gate c).2.stack
      (Run.visit (engine options).registry run c) := by
    have begun : During sheet (fun mark => mark = (run.gate c).2.store.ignoreEnd ∨ mark = none) c (run.gate c).2.stack
        (run.gate c).2 :=
      { passed with noted := .inl rfl, opened := fun _ member => .inl member }
    cases closes : closesIgnoreAt sheet c with
    | false =>
      rw [visit_of_mem_stack holds inside inner reached isOpen oneShot options closes]
      exact begun
    | true =>
      have comment : (run.gate c).2.scene.sheet.kind c = .comment := by
        cases found : sheet.comment? c with
        | none => simp [closesIgnoreAt, found] at closes
        | some text => exact congrArg Content.kind (Sheet.content_of_comment? (passed.comment.trans found))
      simp only [Run.visit, comment]
      split
      · exact begun.obeyComment holds inside (.inr rfl) options
      · exact begun
  have before : entry ∈ (run.gate c).2.stack := by
    rcases forms.opened entry stays with old | own
    · exact old
    · exact absurd own (Nat.ne_of_lt (reached.stack entry isOpen).1)
  have elsewhere := stack.mp before
  rw [if_neg elsewhere] at noted
  exact ⟨elsewhere, noted ▸ forms.noted⟩

end

/-! ## Along a walk -/

/-- The number that comes next after so many visits of the standard engine to a sheet. -/
def nodeAt (options : Options) (sheet : Sheet) (steps : Nat) : Nat :=
  (Run.walk (engine options).registry sheet ((engine options).start sheet) steps).1

/-- The run after so many visits of the standard engine to a sheet. -/
def runAt (options : Options) (sheet : Sheet) (steps : Nat) : Run State :=
  (Run.walk (engine options).registry sheet ((engine options).start sheet) steps).2

/-- Whether the visit after so many others cuts off a node that has nodes below it. -/
def cutsOff (options : Options) (sheet : Sheet) (steps : Nat) : Bool :=
  let node := nodeAt options sheet steps
  decide (sheet.children node ≠ []) &&
    decide ((runAt options sheet (steps + 1)).scene.sheet.parent node ≠ sheet.parent node)

section
variable {options : Options} {sheet : Sheet} {whole : Item} {i j : Nat} {entry : OpenDirective State}

theorem reached_runAt (holds : sheet.Holds whole) (steps : Nat) :
    Reached sheet (IsLeaf sheet) (nodeAt options sheet steps) (runAt options sheet steps) :=
  (reached_invariant holds options).walk (reached_start options sheet) steps

theorem runAt_succ (inside : nodeAt options sheet j < sheet.size) :
    runAt options sheet (j + 1) = Run.visit (engine options).registry (runAt options sheet j) (nodeAt options sheet j) := by
  simp only [nodeAt, runAt, Run.walk] at inside ⊢
  rw [if_pos inside]

theorem nodeAt_succ (inside : nodeAt options sheet j < sheet.size) :
    nodeAt options sheet (j + 1) = (runAt options sheet (j + 1)).resume sheet (nodeAt options sheet j) := by
  simp only [nodeAt, runAt, Run.walk] at inside ⊢
  rw [if_pos inside]

theorem walk_over (ended : ¬ nodeAt options sheet j < sheet.size) :
    nodeAt options sheet (j + 1) = nodeAt options sheet j ∧ runAt options sheet (j + 1) = runAt options sheet j := by
  simp only [nodeAt, runAt, Run.walk] at ended ⊢
  simp only [if_neg ended, and_self]

theorem nodeAt_le (holds : sheet.Holds whole) (later : i ≤ j) : nodeAt options sheet i ≤ nodeAt options sheet j := by
  induction later with
  | refl => exact Nat.le_refl _
  | @step j _ ih =>
    refine Nat.le_trans ih ?_
    by_cases inside : nodeAt options sheet j < sheet.size
    · rw [nodeAt_succ inside]
      exact Nat.le_of_lt (lt_resume holds inside _)
    · exact Nat.le_of_eq (walk_over inside).1.symm

/-- A directive that is open was open before, unless its own comment has just been visited. -/
theorem mem_stack_of_mem_stack_succ (holds : sheet.Holds whole) (source : entry.invocation.source < nodeAt options sheet j)
    (isOpen : entry ∈ (runAt options sheet (j + 1)).stack) : entry ∈ (runAt options sheet j).stack := by
  by_cases inside : nodeAt options sheet j < sheet.size
  · rw [runAt_succ inside] at isOpen
    have visited := (reached_runAt holds j).visit holds inside (isLeaf_none sheet) (isLeaf_lastBelow holds inside) options
    rcases visited.opened entry isOpen with before | own
    · exact before
    · exact absurd own (Nat.ne_of_lt source)
  · rwa [(walk_over inside).2] at isOpen

theorem mem_stack_of_le (holds : sheet.Holds whole) (later : i ≤ j) (source : entry.invocation.source < nodeAt options sheet i)
    (isOpen : entry ∈ (runAt options sheet j).stack) : entry ∈ (runAt options sheet i).stack := by
  induction later with
  | refl => exact isOpen
  | step later ih =>
    exact ih (mem_stack_of_mem_stack_succ holds (Nat.lt_of_lt_of_le source (nodeAt_le holds later)) isOpen)

/-- A visit that is not to a closing comment closes an `ignore` of one form exactly if it is to its goal, which is noted
otherwise. -/
theorem mem_stack_succ_iff (holds : sheet.Holds whole)
    (inner : ∀ id, Sheet.root < id → id < sheet.size → sheet.kind id ≠ .root) (inside : nodeAt options sheet j < sheet.size)
    (isOpen : entry ∈ (runAt options sheet j).stack) (oneShot : isOneShotIgnore entry = true)
    (silent : closesIgnoreAt sheet (nodeAt options sheet j) = false) :
    let goal := goalAt sheet (nodeAt options sheet j) (runAt options sheet j)
    (entry ∈ (runAt options sheet (j + 1)).stack ↔ goal ≠ nodeAt options sheet j) ∧
      (runAt options sheet (j + 1)).store.ignoreEnd = if goal = nodeAt options sheet j then none else some goal := by
  have reached : Reached sheet (IsLeaf sheet) (nodeAt options sheet j) (runAt options sheet j) := reached_runAt holds j
  have kind := inner _ (Nat.lt_of_le_of_lt (Nat.zero_le _) (reached.stack entry isOpen).1) inside
  obtain ⟨stack, noted, _⟩ := gate_of_mem_stack holds inside kind reached isOpen oneShot
  rw [runAt_succ inside, visit_of_mem_stack holds inside kind reached isOpen oneShot options silent]
  exact ⟨stack, noted⟩

/-- Whatever is visited, an `ignore` of one form that stays open was not at its goal. -/
theorem of_mem_stack_succ (holds : sheet.Holds whole)
    (inner : ∀ id, Sheet.root < id → id < sheet.size → sheet.kind id ≠ .root) (inside : nodeAt options sheet j < sheet.size)
    (isOpen : entry ∈ (runAt options sheet j).stack) (oneShot : isOneShotIgnore entry = true)
    (stays : entry ∈ (runAt options sheet (j + 1)).stack) :
    let goal := goalAt sheet (nodeAt options sheet j) (runAt options sheet j)
    goal ≠ nodeAt options sheet j ∧
      ((runAt options sheet (j + 1)).store.ignoreEnd = some goal ∨ (runAt options sheet (j + 1)).store.ignoreEnd = none) := by
  have reached : Reached sheet (IsLeaf sheet) (nodeAt options sheet j) (runAt options sheet j) := reached_runAt holds j
  have kind := inner _ (Nat.lt_of_le_of_lt (Nat.zero_le _) (reached.stack entry isOpen).1) inside
  rw [runAt_succ inside] at stays ⊢
  exact of_mem_stack_visit holds inside kind reached isOpen oneShot options stays

theorem goalAt_lt_size (holds : sheet.Holds whole) {c : Nat} (inside : c < sheet.size) {run : Run State}
    (reached : Reached sheet (IsLeaf sheet) c run) : goalAt sheet c run < sheet.size := by
  unfold goalAt
  cases noted : run.store.ignoreEnd with
  | none => exact (holds.stop_bounds inside).2
  | some n => exact (reached.noted n noted).1

/-- Without closing comments, an `ignore` of one form is open until its goal has been visited. -/
theorem mem_stack_iff (holds : sheet.Holds whole) (inner : ∀ id, Sheet.root < id → id < sheet.size → sheet.kind id ≠ .root)
    (later : i ≤ j) (inside : nodeAt options sheet i < sheet.size) (isOpen : entry ∈ (runAt options sheet i).stack)
    (oneShot : isOneShotIgnore entry = true)
    (silent : ∀ m, i ≤ m → m < j → closesIgnoreAt sheet (nodeAt options sheet m) = false) :
    let goal := goalAt sheet (nodeAt options sheet i) (runAt options sheet i)
    (entry ∈ (runAt options sheet j).stack ↔ ∀ m, i ≤ m → m < j → nodeAt options sheet m ≠ goal) ∧
      (entry ∈ (runAt options sheet j).stack → i < j → (runAt options sheet j).store.ignoreEnd = some goal) := by
  intro goal
  have bound : goal < sheet.size := goalAt_lt_size holds inside (reached_runAt holds i)
  have source := ((reached_runAt holds i).stack entry isOpen).1
  induction later with
  | refl =>
    refine ⟨⟨fun _ m low high => absurd high (Nat.not_lt_of_le low), fun _ => isOpen⟩, ?_⟩
    intro _ impossible
    exact absurd impossible (Nat.lt_irrefl i)
  | @step j later ih =>
    obtain ⟨before, noted⟩ := ih fun m low high => silent m low (Nat.lt_succ_of_lt high)
    have split : (∀ m, i ≤ m → m < j + 1 → nodeAt options sheet m ≠ goal) ↔
        (∀ m, i ≤ m → m < j → nodeAt options sheet m ≠ goal) ∧ nodeAt options sheet j ≠ goal := by
      constructor
      · intro all
        exact ⟨fun m low high => all m low (Nat.lt_succ_of_lt high), all j later (Nat.lt_succ_self j)⟩
      · rintro ⟨first, last⟩ m low high
        rcases Nat.lt_succ_iff_lt_or_eq.mp high with earlier | rfl
        · exact first m low earlier
        · exact last
    have earlier : entry.invocation.source < nodeAt options sheet j := Nat.lt_of_lt_of_le source (nodeAt_le holds later)
    rw [split, ← before]
    by_cases reached : nodeAt options sheet j < sheet.size
    · by_cases member : entry ∈ (runAt options sheet j).stack
      · have here : goalAt sheet (nodeAt options sheet j) (runAt options sheet j) = goal := by
          rcases Nat.eq_or_lt_of_le later with rfl | after
          · rfl
          · rw [goalAt, noted member after]
            rfl
        obtain ⟨stack, note⟩ := mem_stack_succ_iff holds inner reached member oneShot (silent j later (Nat.lt_succ_self j))
        rw [stack, note, here]
        refine ⟨?_, ?_⟩
        · simp [member, eq_comm]
        · intro elsewhere _
          rw [if_neg elsewhere]
      · have gone : entry ∉ (runAt options sheet (j + 1)).stack :=
          fun stays => member (mem_stack_of_mem_stack_succ holds earlier stays)
        simp [gone, member]
    · have elsewhere : nodeAt options sheet j ≠ goal := by omega
      rw [(walk_over reached).2]
      refine ⟨by simp [elsewhere], ?_⟩
      intro member _
      refine noted member (Nat.lt_of_le_of_ne later ?_)
      rintro rfl
      exact reached inside

/-- As long as nothing with nodes below it is cut off, an `ignore` of one form whose goal is in the subtree of the node that
comes next is open nowhere behind that subtree, closing comments or not. -/
theorem mem_stack_bounds (holds : sheet.Holds whole)
    (inner : ∀ id, Sheet.root < id → id < sheet.size → sheet.kind id ≠ .root) (later : i ≤ j)
    (inside : nodeAt options sheet i < sheet.size) (isOpen : entry ∈ (runAt options sheet i).stack)
    (oneShot : isOneShotIgnore entry = true)
    (within : nodeAt options sheet i ≤ goalAt sheet (nodeAt options sheet i) (runAt options sheet i) ∧
      goalAt sheet (nodeAt options sheet i) (runAt options sheet i) < sheet.stop (nodeAt options sheet i))
    (intact : ∀ m, i ≤ m → nodeAt options sheet m < sheet.stop (nodeAt options sheet i) →
      entry ∈ (runAt options sheet m).stack → cutsOff options sheet m = false)
    (stays : entry ∈ (runAt options sheet j).stack) :
    nodeAt options sheet j < sheet.stop (nodeAt options sheet i) ∧
      ∀ n, (runAt options sheet j).store.ignoreEnd = some n →
        nodeAt options sheet j ≤ n ∧ n < sheet.stop (nodeAt options sheet i) := by
  have source := ((reached_runAt holds i).stack entry isOpen).1
  induction later with
  | refl =>
    refine ⟨(holds.stop_bounds inside).1, ?_⟩
    intro n noted
    rw [goalAt, noted] at within
    exact within
  | @step j later ih =>
    have earlier : entry.invocation.source < nodeAt options sheet j := Nat.lt_of_lt_of_le source (nodeAt_le holds later)
    have member := mem_stack_of_mem_stack_succ holds earlier stays
    obtain ⟨below, bounds⟩ := ih member
    have reached : nodeAt options sheet j < sheet.size := Nat.lt_of_lt_of_le below (holds.stop_bounds inside).2
    -- The node that it ends at lies ahead, inside the subtree.
    have goal : nodeAt options sheet j ≤ goalAt sheet (nodeAt options sheet j) (runAt options sheet j) ∧
        goalAt sheet (nodeAt options sheet j) (runAt options sheet j) < sheet.stop (nodeAt options sheet i) := by
      unfold goalAt
      cases noted : (runAt options sheet j).store.ignoreEnd with
      | none =>
        have nested := holds.stop_le_stop inside (nodeAt_le holds later) below
        exact ⟨Nat.le_of_lt_succ (holds.stop_bounds reached).1, Nat.lt_of_succ_le nested⟩
      | some n => exact bounds n noted
    have next : nodeAt options sheet (j + 1) = nodeAt options sheet j + 1 := by
      rw [nodeAt_succ reached, Run.resume]
      split
      · rfl
      · rename_i cut
        have leaf := intact j later below member
        simp only [cutsOff, Bool.and_eq_false_iff, decide_eq_false_iff_not, Decidable.not_not] at leaf
        exact Sheet.stop_of_children_eq_nil (leaf.resolve_right cut)
    obtain ⟨elsewhere, noted⟩ := of_mem_stack_succ holds inner reached member oneShot stays
    rw [next]
    refine ⟨by omega, ?_⟩
    intro n mark
    rw [Nat.succ_eq_add_one] at mark
    rw [mark] at noted
    rcases noted with same | impossible
    · cases same
      exact ⟨Nat.lt_of_le_of_ne goal.1 elsewhere.symm, goal.2⟩
    · cases impossible

theorem exists_nodeAt_eq_size (options : Options) (holds : sheet.Holds whole) :
    ∃ last, nodeAt options sheet last = sheet.size ∧
      runAt options sheet last = Run.traverse (engine options).registry ((engine options).start sheet) := by
  obtain ⟨last, walked, _⟩ := (reached_invariant holds options).exists_walk holds (reached_start options sheet)
  exact ⟨last, by rw [nodeAt, walked], by rw [runAt, walked]⟩

/-- What is open at one step and not at a later one is closed by a visit in between. -/
theorem exists_closing_step (later : i ≤ j) (isOpen : entry ∈ (runAt options sheet i).stack)
    (closed : entry ∉ (runAt options sheet j).stack) :
    ∃ m, i ≤ m ∧ nodeAt options sheet m < sheet.size ∧ entry ∈ (runAt options sheet m).stack ∧
      entry ∉ (runAt options sheet (m + 1)).stack := by
  induction later with
  | refl => exact absurd isOpen closed
  | @step j later ih =>
    by_cases member : entry ∈ (runAt options sheet j).stack
    · refine ⟨j, later, ?_, member, closed⟩
      by_cases inside : nodeAt options sheet j < sheet.size
      · exact inside
      · rw [Nat.succ_eq_add_one, (walk_over inside).2] at closed
        exact absurd member closed
    · exact ih member

/-- An `ignore` of one form is closed behind a subtree exactly if its goal comes up inside while it is open, or a closing
comment there closes it. -/
theorem not_mem_stack_behind_iff (holds : sheet.Holds whole)
    (inner : ∀ id, Sheet.root < id → id < sheet.size → sheet.kind id ≠ .root)
    (inside : nodeAt options sheet i < sheet.size) (isOpen : entry ∈ (runAt options sheet i).stack)
    (oneShot : isOneShotIgnore entry = true) :
    (∀ j, i ≤ j → sheet.stop (nodeAt options sheet i) ≤ nodeAt options sheet j → entry ∉ (runAt options sheet j).stack) ↔
      ∃ m, i ≤ m ∧ nodeAt options sheet m < sheet.stop (nodeAt options sheet i) ∧ entry ∈ (runAt options sheet m).stack ∧
        (goalAt sheet (nodeAt options sheet m) (runAt options sheet m) = nodeAt options sheet m ∨
          closesIgnoreAt sheet (nodeAt options sheet m) = true ∧ entry ∉ (runAt options sheet (m + 1)).stack) := by
  have source := ((reached_runAt holds i).stack entry isOpen).1
  constructor
  · intro closed
    obtain ⟨last, ended, _⟩ := exists_nodeAt_eq_size options holds
    have later : i ≤ last := by
      refine Nat.le_of_not_lt fun before => ?_
      have mono : nodeAt options sheet last ≤ nodeAt options sheet i := nodeAt_le holds (Nat.le_of_lt before)
      omega
    have gone := closed last later (ended ▸ (holds.stop_bounds inside).2)
    obtain ⟨m, low, reached, member, closes⟩ := exists_closing_step later isOpen gone
    have below : nodeAt options sheet m < sheet.stop (nodeAt options sheet i) :=
      Nat.lt_of_not_le fun behind => closed m low behind member
    refine ⟨m, low, below, member, ?_⟩
    cases silent : closesIgnoreAt sheet (nodeAt options sheet m) with
    | true => exact .inr ⟨rfl, closes⟩
    | false =>
      rw [(mem_stack_succ_iff holds inner reached member oneShot silent).1] at closes
      exact .inl (Decidable.not_not.mp closes)
  · rintro ⟨m, low, below, member, ends⟩ j _ behind stays
    have reached : nodeAt options sheet m < sheet.size := Nat.lt_of_lt_of_le below (holds.stop_bounds inside).2
    have further : m + 1 ≤ j := by
      refine Nat.lt_of_not_le fun before => ?_
      exact absurd (Nat.le_trans behind (nodeAt_le holds before)) (Nat.not_le_of_lt below)
    have ahead : entry.invocation.source < nodeAt options sheet (m + 1) :=
      Nat.lt_of_lt_of_le source (nodeAt_le holds (Nat.le_succ_of_le low))
    have next : entry ∈ (runAt options sheet (m + 1)).stack := mem_stack_of_le holds further ahead stays
    rcases ends with goal | ⟨_, closes⟩
    · exact (of_mem_stack_succ holds inner reached member oneShot next).1 goal
    · exact closes next

/-! ## The reach of one form -/

/-- An `ignore` of one form that is open before a step of a run, in particular at the first node that it is asked about.
While it is open, every node is left as it is, except a closing comment. Without closing comments it is open until the
very visit to its goal. It is closed behind the subtree of the node exactly if its goal of the time comes up inside, or a
closing comment there closes it. The goal does come up if it is in the subtree, as it is where none was noted before, and
if no node is cut off with others below it. A closed one never opens again, and the last step gives what the engine gives. -/
theorem ignore_reach {text : Text} (parsed : Sheet.parse text = .ok sheet) (inside : nodeAt options sheet i < sheet.size)
    (isOpen : entry ∈ (runAt options sheet i).stack) (oneShot : isOneShotIgnore entry = true) :
    let node := nodeAt options sheet i
    let goal := goalAt sheet node (runAt options sheet i)
    let closedBehind := ∀ j, i ≤ j → sheet.stop node ≤ nodeAt options sheet j → entry ∉ (runAt options sheet j).stack
    (∀ j, i ≤ j → nodeAt options sheet j < sheet.size → entry ∈ (runAt options sheet j).stack →
      closesIgnoreAt sheet (nodeAt options sheet j) = false →
        ((runAt options sheet j).gate (nodeAt options sheet j)).1 = false) ∧
    (∀ j, i ≤ j → (∀ m, i ≤ m → m < j → closesIgnoreAt sheet (nodeAt options sheet m) = false) →
      (entry ∈ (runAt options sheet j).stack ↔ ∀ m, i ≤ m → m < j → nodeAt options sheet m ≠ goal)) ∧
    (closedBehind ↔
      ∃ m, i ≤ m ∧ nodeAt options sheet m < sheet.stop node ∧ entry ∈ (runAt options sheet m).stack ∧
        (goalAt sheet (nodeAt options sheet m) (runAt options sheet m) = nodeAt options sheet m ∨
          closesIgnoreAt sheet (nodeAt options sheet m) = true ∧ entry ∉ (runAt options sheet (m + 1)).stack)) ∧
    (node ≤ goal ∧ goal < sheet.stop node →
      (∀ m, i ≤ m → nodeAt options sheet m < sheet.stop node → entry ∈ (runAt options sheet m).stack →
        cutsOff options sheet m = false) → closedBehind) ∧
    ((runAt options sheet i).store.ignoreEnd = none → node ≤ goal ∧ goal < sheet.stop node) ∧
    (∀ j k, i ≤ j → j ≤ k → entry ∈ (runAt options sheet k).stack → entry ∈ (runAt options sheet j).stack) ∧
    ∃ last, nodeAt options sheet last = sheet.size ∧
      ((engine options).flip sheet).1 = (runAt options sheet last).scene.sheet ∧
      ((engine options).flip sheet).2.1 = (runAt options sheet last).report := by
  intro node goal closedBehind
  obtain ⟨_, _, _, holds⟩ := Sheet.exists_holds_of_parse parsed
  have inner : ∀ id, Sheet.root < id → id < sheet.size → sheet.kind id ≠ .root :=
    fun id => Sheet.kind_ne_root_of_parse parsed
  have source := ((reached_runAt holds i).stack entry isOpen).1
  refine ⟨?_, ?_, not_mem_stack_behind_iff holds inner inside isOpen oneShot, ?_, ?_, ?_, ?_⟩
  · intro j later reached member silent
    have earlier := ((reached_runAt holds j).stack entry member).1
    have kind := inner _ (Nat.lt_of_le_of_lt (Nat.zero_le _) earlier) reached
    exact (gate_of_mem_stack holds reached kind (reached_runAt holds j) member oneShot).2.2 silent
  · intro j later silent
    exact (mem_stack_iff holds inner later inside isOpen oneShot silent).1
  · intro within intact j later behind stays
    have below := (mem_stack_bounds holds inner later inside isOpen oneShot within intact stays).1
    exact absurd behind (Nat.not_le_of_lt below)
  · intro unnoted
    have lastBelow : goal = sheet.lastBelow node := by simp only [goal, goalAt, unnoted, Option.getD_none]
    rw [lastBelow]
    exact ⟨Nat.le_of_lt_succ (holds.stop_bounds inside).1, Nat.lt_succ_self _⟩
  · intro j k later further
    exact mem_stack_of_le holds further (Nat.lt_of_lt_of_le source (nodeAt_le holds later))
  · obtain ⟨last, ended, traversed⟩ := exists_nodeAt_eq_size options holds
    refine ⟨last, ended, ?_⟩
    rw [traversed]
    exact ⟨rfl, rfl⟩

theorem ignore_reach_rule :
    ∃ sheet entry, Sheet.parse "/*rtl:ignore*/.a{left:0}.b{}".toList = .ok sheet ∧ nodeAt {} sheet 2 < sheet.size ∧
      entry ∈ (runAt {} sheet 2).stack ∧ isOneShotIgnore entry = true ∧ nodeAt {} sheet 2 = 2 ∧ nodeAt {} sheet 3 = 3 ∧
      entry ∈ (runAt {} sheet 3).stack ∧ entry ∉ (runAt {} sheet 4).stack := by
  obtain ⟨sheet, parsed, test⟩ := Sheet.exists_of_readable
    (by decide +kernel : (Sheet.parse "/*rtl:ignore*/.a{left:0}.b{}".toList).toOption.any (fun sheet =>
      decide (nodeAt {} sheet 2 < sheet.size) && (runAt {} sheet 2).stack.any isOneShotIgnore &&
        nodeAt {} sheet 2 == 2 && nodeAt {} sheet 3 == 3 && goalAt sheet (nodeAt {} sheet 2) (runAt {} sheet 2) == 3 &&
        !closesIgnoreAt sheet 2 && !closesIgnoreAt sheet 3) = true)
  simp only [Bool.and_eq_true, decide_eq_true_eq, beq_iff_eq, List.any_eq_true, Bool.not_eq_eq_eq_not, Bool.not_true] at test
  obtain ⟨⟨⟨⟨⟨⟨inside, entry, isOpen, oneShot⟩, second⟩, third⟩, goal⟩, silentRule⟩, silentDeclaration⟩ := test
  obtain ⟨_, openUntil, _⟩ := ignore_reach parsed inside isOpen oneShot
  rw [goal] at openUntil
  have silent : ∀ m, 2 ≤ m → m < 4 → closesIgnoreAt sheet (nodeAt {} sheet m) = false := by
    intro m low high
    obtain rfl | rfl : m = 2 ∨ m = 3 := by omega
    · rw [second, silentRule]
    · rw [third, silentDeclaration]
  have stays := (openUntil 3 (by decide) fun m low high => silent m low (by omega)).mpr fun m low high => by
    obtain rfl : m = 2 := by omega
    rw [second]
    decide
  have closed : entry ∉ (runAt {} sheet 4).stack := fun isStill =>
    (openUntil 4 (by decide) silent).mp isStill 3 (by decide) (by decide) third
  exact ⟨sheet, entry, parsed, inside, isOpen, oneShot, second, third, stays, closed⟩

/-- A `remove` in front of an `ignore` cuts off the rule that both are about. The goal below the rule is never visited, so
the `ignore` is still open behind the rule, and what follows is not flipped. -/
theorem ignore_outlives_removed_rule :
    ∃ sheet entry, Sheet.parse "/*rtl:remove*/ /*rtl:ignore*/ .a{left:0} .b{float:left}".toList = .ok sheet ∧
      isOneShotIgnore entry = true ∧ nodeAt {} sheet 3 = 3 ∧ entry ∈ (runAt {} sheet 3).stack ∧
      sheet.stop 3 = 5 ∧ nodeAt {} sheet 4 = 5 ∧ entry ∈ (runAt {} sheet 4).stack ∧
      ((runAt {} sheet 4).gate 5).1 = false ∧
      ((engine {}).flip sheet).1.toText = " /*rtl:ignore*/ .b{float:left}".toList := by
  obtain ⟨sheet, parsed, test⟩ := Sheet.exists_of_readable
    (by decide +kernel : (Sheet.parse "/*rtl:remove*/ /*rtl:ignore*/ .a{left:0} .b{float:left}".toList).toOption.any
      (fun sheet => nodeAt {} sheet 3 == 3 && sheet.stop 3 == 5 && nodeAt {} sheet 4 == 5 &&
        (runAt {} sheet 4).stack.any (fun entry => isOneShotIgnore entry && entry.invocation.source == 2) &&
        !((runAt {} sheet 4).gate 5).1 &&
        ((engine {}).flip sheet).1.toText == " /*rtl:ignore*/ .b{float:left}".toList) = true)
  simp only [Bool.and_eq_true, beq_iff_eq, List.any_eq_true, Bool.not_eq_eq_eq_not, Bool.not_true] at test
  obtain ⟨⟨⟨⟨⟨third, stop⟩, fourth⟩, entry, isOpen, oneShot, source⟩, claimed⟩, written⟩ := test
  obtain ⟨_, _, _, holds⟩ := Sheet.exists_holds_of_parse parsed
  have before : entry ∈ (runAt {} sheet 3).stack :=
    mem_stack_of_le holds (by decide : 3 ≤ 4) (by rw [third, source]; decide) isOpen
  exact ⟨sheet, entry, parsed, oneShot, third, before, stop, fourth, isOpen, claimed, written⟩

end
end StyleFlip.Standard
