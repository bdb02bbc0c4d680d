import StyleFlip.Proofs.Closing
import StyleFlip.Proofs.IgnoreScope

/-!
The moments of a run of the standard engine on a stored sheet. The nodes that such a run visits are known from its steps
(`exists_trail_eq`). At each of them the run stands between two visits or in the middle of one, and finds what lies ahead as it
was read (`point_momentAt`). What it has open comes from the forms of the comments behind it (`exists_form_of_mem_stack`).
-/
namespace StyleFlip.Standard
open Run (Moment Stage)

/-! ## The nodes that a run visits -/

/-- The entries of the default string map stand in the order in which they apply. -/
theorem start_of_default {options : Options} (plain : options.stringMap = defaultStringMap) (sheet : Sheet) :
    (engine options).start sheet = { store := {}, scene :=
      { sheet, options, map := ⟨defaultStringMap.map fun entry => (entry, entry.swaps options.greedy)⟩ } } := by
  have begun : (engine options).start sheet = { store := {}, scene := { sheet, options, map := options.map } } := rfl
  rw [begun, Options.map, plain, StringMap.ofEntries, List.mergeSort_of_pairwise (by decide)]

section
variable {options : Options} {sheet : Sheet} {whole : Item}

theorem foldl_visit_eq_runAt (options : Options) (sheet : Sheet) (steps : Nat) :
    (((List.range steps).map (nodeAt options sheet)).filter (· < sheet.size)).foldl (Run.visit (engine options).registry)
      ((engine options).start sheet) = runAt options sheet steps := by
  induction steps with
  | zero => rfl
  | succ steps ih =>
    rw [List.range_succ, List.map_append, List.filter_append, List.foldl_append, ih]
    by_cases inside : nodeAt options sheet steps < sheet.size
    · simp only [List.map_cons, List.map_nil, List.filter_cons, List.filter_nil, inside, decide_true, if_true,
        List.foldl_cons, List.foldl_nil, runAt_succ inside]
    · simp only [List.map_cons, List.map_nil, List.filter_cons, List.filter_nil, inside, decide_false, Bool.false_eq_true,
        if_false, List.foldl_nil, (walk_over inside).2]

theorem nodeAt_lt (holds : sheet.Holds whole) {i j : Nat} (inside : nodeAt options sheet i < sheet.size) (later : i < j) :
    nodeAt options sheet i < nodeAt options sheet j := by
  have onward := lt_resume holds inside (runAt options sheet (i + 1))
  rw [← nodeAt_succ inside] at onward
  exact Nat.lt_of_lt_of_le onward (nodeAt_le holds later)

theorem min_le_nodeAt (options : Options) (holds : sheet.Holds whole) (steps : Nat) :
    min steps sheet.size ≤ nodeAt options sheet steps := by
  induction steps with
  | zero => simp
  | succ steps ih =>
    by_cases inside : nodeAt options sheet steps < sheet.size
    · have onward := nodeAt_lt holds inside (Nat.lt_add_one steps)
      omega
    · rw [(walk_over inside).1]
      omega

theorem runAt_of_ended {i j : Nat} (ended : ¬ nodeAt options sheet i < sheet.size) (later : i ≤ j) :
    ¬ nodeAt options sheet j < sheet.size ∧ runAt options sheet j = runAt options sheet i := by
  induction later with
  | refl => exact ⟨ended, rfl⟩
  | @step j _ ih =>
    obtain ⟨still, same⟩ := ih
    rw [(walk_over still).1, (walk_over still).2]
    exact ⟨still, same⟩

theorem runAt_size (options : Options) (holds : sheet.Holds whole) :
    runAt options sheet sheet.size = Run.traverse (engine options).registry ((engine options).start sheet) := by
  obtain ⟨last, ended, traversed⟩ := exists_nodeAt_eq_size options holds
  have far : ¬ nodeAt options sheet sheet.size < sheet.size := by
    have := min_le_nodeAt options holds sheet.size
    omega
  have done : ¬ nodeAt options sheet last < sheet.size := by omega
  rw [← traversed]
  rcases Nat.le_total last sheet.size with before | behind
  · exact (runAt_of_ended done before).2
  · exact (runAt_of_ended far behind).2.symm

/-- The nodes that are visited are the numbers of the walk. -/
theorem exists_trail_eq (options : Options) (holds : sheet.Holds whole) :
    ∃ steps, (engine options).trail sheet = (List.range steps).map (nodeAt options sheet) ∧
      nodeAt options sheet steps = sheet.size ∧ ∀ i < steps, nodeAt options sheet i < sheet.size := by
  obtain ⟨steps, walked, recorded, known⟩ :=
    (reached_invariant holds options).exists_walk holds (reached_start options sheet)
  refine ⟨steps, recorded, by rw [nodeAt, walked], ?_⟩
  intro i early
  refine known _ ?_
  rw [recorded]
  exact List.mem_map.mpr ⟨i, List.mem_range.mpr early, rfl⟩

theorem trail_increasing (options : Options) (holds : sheet.Holds whole) : ((engine options).trail sheet).Pairwise (· < ·) := by
  obtain ⟨steps, recorded, _, inside⟩ := exists_trail_eq options holds
  rw [recorded, List.pairwise_map]
  exact List.pairwise_lt_range.imp_of_mem fun first _ later => nodeAt_lt holds (inside _ (List.mem_range.mp first)) later

end

/-! ## Where a run stands -/

/-- The forms of the directive comment at a node. -/
def formsAt (sheet : Sheet) (node : Nat) : List Directive.Form :=
  (((sheet.comment? node).bind Directive.Comment.parse?).map (·.forms)).getD []

/-- A run in the middle of its visit to node `c`, with the nodes that it visits next: the forms that it still has to obey are
forms of the comment. -/
structure Standing (sheet : Sheet) (c : Nat) (later : List Nat) (moment : Moment State) : Prop where
  stage : Stage c (later.map .arrive) moment
  during : ∃ earlier, During sheet (IsLeaf sheet) c earlier moment.run
  forms : ∀ preserve consumed forms, moment.tasks.head? = some (.obey c preserve consumed forms) → forms ⊆ formsAt sheet c

/-- A moment of a run: it stands in front of a visit or in the middle of one, and all visits that follow are to later nodes
of the sheet. -/
inductive Point (sheet : Sheet) : Moment State → Prop where
  | between {k : Nat} {later : List Nat} {run : Run State} (reached : Reached sheet (IsLeaf sheet) k run)
      (sorted : later.Pairwise (· < ·)) (ahead : ∀ n ∈ later, k ≤ n ∧ n < sheet.size) : Point sheet ⟨later.map .arrive, run⟩
  | within {c : Nat} {later : List Nat} {moment : Moment State} (standing : Standing sheet c later moment)
      (inside : c < sheet.size) (sorted : later.Pairwise (· < ·)) (ahead : ∀ n ∈ later, c < n ∧ n < sheet.size) :
      Point sheet moment

section
variable {sheet : Sheet} {whole : Item} {c : Nat} {later : List Nat}

theorem standing_of_arrive (options : Options) {run : Run State} (reached : Reached sheet (IsLeaf sheet) c run)
    (inside : c < sheet.size) :
    Standing sheet c later (Moment.next (engine options).registry ⟨.arrive c :: later.map .arrive, run⟩) := by
  rw [Run.next_arrive, if_neg (reached.not_mem_handled inside)]
  exact ⟨.asking _ _ rfl, ⟨run.stack, reached.during inside⟩, fun _ _ _ other => by cases other⟩

/-- Every step of a visit keeps to its node. -/
theorem Standing.during_next (holds : sheet.Holds whole) (inside : c < sheet.size) (options : Options) {moment : Moment State}
    (standing : Standing sheet c later moment) :
    ∃ earlier, During sheet (IsLeaf sheet) c earlier (moment.next (engine options).registry).run := by
  obtain ⟨stage, ⟨earlier, during⟩, _⟩ := standing
  refine ⟨earlier, ?_⟩
  have clear := isLeaf_none sheet
  cases stage with
  | @asking kept entries kind claimed run row =>
    cases entries with
    | nil => exact during.setStack fun entry member => .inl (by rw [row]; simpa using member)
    | cons entry others =>
      have asked := during.ask holds inside clear (isLeaf_lastBelow holds inside) kind
        (during.stack entry (by rw [row]; simp)).2
      simp only [Moment.next, Run.Task.step]
      split
      · refine asked.endDirective holds inside (Nat.le_of_lt_succ (during.stack entry (by rw [row]; simp)).1) ?_
        intro other member
        rw [Run.stack_ask, row]
        grind
      · exact asked
  | passing run =>
    simp only [Moment.next, Run.Task.step]
    split
    · split <;> exact during
    · exact { during with }
    · exact during.flipParams
    · exact during
    · exact during
  | obeying preserve consumed forms run =>
    cases forms with
    | nil =>
      simp only [Moment.next, Run.Task.step]
      split
      · exact during.stripSource holds inside (Nat.le_refl c) preserve
      · exact during
    | cons form others =>
      have obeyed := during.obey holds inside clear options (Run.invocationOf c preserve form) rfl
      simp only [Moment.next, Run.Task.step]
      split <;> exact obeyed
  | flipping run =>
    have marks := during.obeyMarks options
    simp only [Moment.next, Run.Task.step, Run.flipValue]
    split
    · exact marks
    · exact marks.flipByRule options
  | naming run => exact during.renameAround holds inside

/-- The forms that are left to obey are forms of the comment. -/
theorem Standing.forms_next (options : Options) {moment : Moment State} (standing : Standing sheet c later moment)
    (preserve consumed : Bool) (forms : List Directive.Form)
    (task : (moment.next (engine options).registry).tasks.head? = some (.obey c preserve consumed forms)) :
    forms ⊆ formsAt sheet c := by
  obtain ⟨stage, ⟨earlier, during⟩, known⟩ := standing
  have behind : (later.map .arrive : List (Run.Task State)).head? ≠ some (.obey c preserve consumed forms) := by
    cases later <;> simp
  cases stage with
  | @asking kept entries kind claimed run row =>
    cases entries with
    | nil =>
      cases claimed with
      | true => exact absurd task behind
      | false => cases task
    | cons entry others =>
      simp only [Moment.next, Run.Task.step] at task
      split at task <;> cases task
  | passing run =>
    simp only [Moment.next, Run.Task.step] at task
    split at task
    · split at task
      · exact absurd task behind
      · rename_i comment found
        cases task
        have same : formsAt sheet c = comment.forms := by
          rw [during.comment] at found
          rw [formsAt, found]
          rfl
        rw [same]
        exact List.Subset.refl _
    · exact absurd task behind
    · exact absurd task behind
    · cases task
    · exact absurd task behind
  | obeying preserve consumed forms run =>
    cases forms with
    | nil => exact absurd task behind
    | cons form others =>
      have fewer : others ⊆ formsAt sheet c := fun other member => known _ _ _ rfl (List.mem_cons_of_mem _ member)
      simp only [Moment.next, Run.Task.step] at task
      split at task
      · cases task
        exact fewer
      · cases task
        exact fewer
      · cases task
        exact List.nil_subset _
  | flipping run => cases task
  | naming run => exact absurd task behind

theorem Point.next (holds : sheet.Holds whole) (options : Options) {moment : Moment State} (point : Point sheet moment) :
    Point sheet (moment.next (engine options).registry) := by
  cases point with
  | @between k later run reached sorted ahead =>
    cases later with
    | nil => exact @Point.between sheet k [] run reached sorted ahead
    | cons c others =>
      obtain ⟨low, inside⟩ := ahead c List.mem_cons_self
      obtain ⟨first, sorted⟩ := List.pairwise_cons.mp sorted
      exact .within (standing_of_arrive options (reached.later low) inside) inside sorted
        fun n member => ⟨first n member, (ahead n (List.mem_cons_of_mem _ member)).2⟩
  | within standing inside sorted ahead =>
    obtain ⟨earlier, during⟩ := standing.during_next holds inside options
    rcases standing.stage.next with onward | left
    · exact .within ⟨onward, ⟨earlier, during⟩, standing.forms_next options⟩ inside sorted ahead
    · generalize moment.next (engine options).registry = after at during left ⊢
      obtain ⟨tasks, run⟩ := after
      obtain rfl : tasks = _ := left
      exact .between during.toReached sorted ahead

/-- At every moment of a run the nodes ahead are as they were read. -/
theorem point_momentAt (holds : sheet.Holds whole) (options : Options) (time : Nat) :
    Point sheet ((engine options).momentAt sheet time) := by
  induction time with
  | zero =>
    refine .between (reached_start options sheet) (trail_increasing options holds) ?_
    intro n member
    obtain ⟨steps, recorded, _, inside⟩ := exists_trail_eq options holds
    rw [recorded] at member
    obtain ⟨i, early, rfl⟩ := List.mem_map.mp member
    exact ⟨Nat.zero_le _, inside i (List.mem_range.mp early)⟩
  | succ time ih => exact ih.next holds options

/-- The number at which a run stands: that of the node that it visits or is about to visit, or the size of the sheet behind
its last visit. -/
def frontier (sheet : Sheet) (moment : Moment State) : Nat := (moment.tasks.head?.map Run.Task.node).getD sheet.size

theorem Standing.frontier_eq {moment : Moment State} (standing : Standing sheet c later moment) : frontier sheet moment = c := by
  cases standing.stage <;> rfl

theorem le_frontier_of_arrivals {k : Nat} (bounded : k ≤ sheet.size) (ahead : ∀ n ∈ later, k ≤ n) {moment : Moment State}
    (arrivals : moment.tasks = later.map .arrive) : k ≤ frontier sheet moment := by
  rw [frontier, arrivals]
  cases later with
  | nil => exact bounded
  | cons first others => exact ahead first List.mem_cons_self

/-- A run never goes back, and goes on to a later node after the last look at a declaration. -/
theorem Point.frontier_next (holds : sheet.Holds whole) (options : Options) {moment : Moment State} (point : Point sheet moment) :
    frontier sheet moment ≤ frontier sheet (moment.next (engine options).registry) ∧
      ∀ node, moment.tasks.head? = some (.rename node) → node < frontier sheet (moment.next (engine options).registry) := by
  cases point with
  | @between k later run reached sorted ahead =>
    cases later with
    | nil => exact ⟨Nat.le_refl _, fun _ impossible => by cases impossible⟩
    | cons c others =>
      obtain ⟨low, inside⟩ := ahead c List.mem_cons_self
      have arrived : Standing sheet c others _ := standing_of_arrive options (reached.later low) inside
      refine ⟨Nat.le_of_eq (Eq.trans rfl arrived.frontier_eq.symm), fun _ impossible => by cases impossible⟩
  | @within c later moment standing inside sorted ahead =>
    have behind : (moment.next (engine options).registry).tasks = later.map .arrive →
        c + 1 ≤ frontier sheet (moment.next (engine options).registry) :=
      le_frontier_of_arrivals inside fun n member => (ahead n member).1
    rw [standing.frontier_eq]
    constructor
    · rcases standing.stage.next with onward | left
      · obtain ⟨earlier, during⟩ := standing.during_next holds inside options
        exact Nat.le_of_eq (Standing.frontier_eq ⟨onward, ⟨earlier, during⟩, standing.forms_next options⟩).symm
      · exact Nat.le_of_succ_le (behind left)
    · intro node task
      obtain ⟨stage, _, _⟩ := standing
      cases stage <;> cases task
      exact behind rfl

/-- What is open was opened by a form of a comment of the sheet. -/
theorem exists_form_of_mem_stack (holds : sheet.Holds whole) {options : Options} {time : Nat} {entry : OpenDirective State}
    (isOpen : entry ∈ ((engine options).momentAt sheet time).run.stack) :
    ∃ source, source < sheet.size ∧ ∃ form ∈ formsAt sheet source, entry.invocation.name = form.name := by
  obtain ⟨earlier, _, opened⟩ := Run.exists_opens_of_mem_stack rfl isOpen
  cases opened with
  | @byForm source preserve consumed form forms task named marker row =>
    have point := point_momentAt holds options earlier
    change ((engine options).momentAt sheet earlier).tasks.head? = _ at task
    generalize (engine options).momentAt sheet earlier = moment at task point
    cases point with
    | @between k later run _ _ _ => cases later <;> cases task
    | @within c later moment standing inside _ _ =>
      obtain rfl : source = c := by
        cases standing.stage <;> cases task
        rfl
      exact ⟨source, inside, form, standing.forms _ _ _ task List.mem_cons_self, named⟩

end
end StyleFlip.Standard
