import StyleFlip.Proofs.Traversal

/-!
The moments of a run. A visit asks the open directives one after the other and then obeys the forms of a comment one
after the other, or flips a declaration and looks at the selector around it. Cut at these places, a run is a row of
moments, each with the tasks that are still to be done (`courseAt`). Doing what is left at a moment gives what the run
gives (`Moment.finish_next`), the row comes to its end (`exists_courseAt_trail`), and at each moment the tasks are
those of one visit and the visits behind it (`exists_stage_courseAt`). So what holds from each moment to the next holds at
every point of every run, whatever the plugins are.
-/
namespace StyleFlip.Run
variable {σ : Type}

/-! ## One open directive -/

/-- Asking one open directive about a node: the run after it, whether the directive claims the node, and whether it is
closed there. -/
def ask (node : NodeId) (kind : Kind) (entry : OpenDirective σ) (run : Run σ) : Run σ × Bool × Bool :=
  match entry.control with
  | none => (run, false, false)
  | some control =>
    if control.interest.accepts kind then
      let (claims, run) := run.call (control.enter node entry.invocation)
      if entry.invocation.closes then
        let (closed, run) := run.call (control.leave node entry.invocation)
        (run, claims, closed)
      else (run, claims, false)
    else (run, false, false)

theorem consult_cons (node : NodeId) (kind : Kind) (kept : List (OpenDirective σ)) (claimed : Bool)
    (entry : OpenDirective σ) (rest : List (OpenDirective σ)) (run : Run σ) :
    consult node kind kept claimed (entry :: rest) run =
      let (after, claims, closed) := ask node kind entry run
      if closed then consult node kind kept (claimed || claims) rest (after.endDirective entry (kept ++ rest))
      else consult node kind (kept ++ [entry]) (claimed || claims) rest after := by
  rw [consult, ask]
  cases entry.control with
  | none => simp
  | some control =>
    simp only
    split
    · cases entry.invocation.closes <;> rfl
    · simp

/-- A directive that takes no interest in a kind of node does not notice it. -/
theorem ask_of_not_accepts {kind : Kind} {entry : OpenDirective σ}
    (other : ∀ control, entry.control = some control → control.interest.accepts kind = false) (node : NodeId) (run : Run σ) :
    ask node kind entry run = (run, false, false) := by
  unfold ask
  split
  · rfl
  · rename_i control live
    simp only [other control live, Bool.false_eq_true, if_false]

/-- A directive whose form only opens is entered, and stays open. -/
theorem ask_of_block {kind : Kind} {entry : OpenDirective σ} {control : Control σ} (live : entry.control = some control)
    (accepts : control.interest.accepts kind = true) (block : entry.invocation.closes = false) (node : NodeId) (run : Run σ) :
    ask node kind entry run =
      ((run.call (control.enter node entry.invocation)).2, (run.call (control.enter node entry.invocation)).1, false) := by
  unfold ask
  simp only [live, accepts, block, if_true, Bool.false_eq_true, if_false]

theorem stack_ask (node : NodeId) (kind : Kind) (entry : OpenDirective σ) (run : Run σ) :
    (ask node kind entry run).1.stack = run.stack := by
  unfold ask
  split
  · rfl
  · simp only
    split
    · split <;> rfl
    · rfl

theorem stack_endDirective (run : Run σ) (entry : OpenDirective σ) (stack : List (OpenDirective σ)) :
    (run.endDirective entry stack).stack = stack := by
  unfold endDirective stripSource
  split <;> rfl

@[simp] theorem store_endDirective (run : Run σ) (entry : OpenDirective σ) (stack : List (OpenDirective σ)) :
    (run.endDirective entry stack).store = run.store := by
  unfold endDirective stripSource
  split <;> rfl

/-- A form that opens puts its directive at the end of the row, unless the directive is done within its own comment. -/
theorem obey_of_opens {registry : Registry σ} {run : Run σ} {invocation : Invocation} {control : Control σ}
    (found : registry.lookup run.scene.options invocation.name = .found control)
    (ordinary : control.interest.isSelfClosing = false) (opens : invocation.opens = true) :
    obey registry run invocation = (.taken, { run with stack := run.stack ++ [⟨invocation, some control⟩] }) := by
  have stays : run.completes control invocation = (false, run) := by
    simp only [completes, ordinary, Bool.false_eq_true, if_false]
  simp only [obey, found, opens, if_true, stays, Bool.false_eq_true, if_false]

theorem mem_of_lastNamed? {name : Text} {stack before later : List (OpenDirective σ)} {entry : OpenDirective σ}
    (found : lastNamed? name stack = some (before, entry, later)) :
    stack = before ++ entry :: later ∧ entry.invocation.name = name := by
  induction stack generalizing before with
  | nil => cases found
  | cons first rest ih =>
    unfold lastNamed? at found
    split at found
    · rename_i inner
      cases found
      obtain ⟨split, named⟩ := ih inner
      exact ⟨by rw [split, List.cons_append], named⟩
    · split at found
      · rename_i named
        cases found
        exact ⟨rfl, named⟩
      · cases found

/-! ## Tasks -/

/-- What a visit still has to do. -/
inductive Task (σ : Type) where
  /-- To ask the gate about the node. -/
  | arrive (node : NodeId)
  /-- To ask the directives in `entries` about the node, where `kept` are those before them that stay open. -/
  | ask (node : NodeId) (kind : Kind) (kept : List (OpenDirective σ)) (claimed : Bool) (entries : List (OpenDirective σ))
  /-- To transform a node that has passed the gate. -/
  | transform (node : NodeId)
  /-- To obey the forms of a comment that are left, and to strip the comment behind them. -/
  | obey (source : NodeId) (preserve consumed : Bool) (forms : List Directive.Form)
  /-- To try the value directives and the flip rules on a declaration. -/
  | flip (node : NodeId)
  /-- To look at the selector around a declaration. -/
  | rename (node : NodeId)

def Task.node : Task σ → NodeId
  | .arrive node => node
  | .ask node _ _ _ _ => node
  | .transform node => node
  | .obey source _ _ _ => source
  | .flip node => node
  | .rename node => node

/-- A moment of a visit: the tasks that are left, and the run. -/
structure Moment (σ : Type) where
  tasks : List (Task σ)
  run : Run σ

/-- A form of a directive comment as the run meets it. -/
def invocationOf (source : NodeId) (preserve : Bool) (form : Directive.Form) : Invocation :=
  { name := form.name, argument := form.argument, opens := form.opens, closes := form.closes, preserve, source }

/-- The forms that are to be obeyed next, as the run meets them. -/
def Moment.invocations (moment : Moment σ) : List Invocation :=
  match moment.tasks with
  | .obey source preserve _ forms :: _ => forms.map (invocationOf source preserve)
  | _ => []

/-- What becomes of a node that has passed the gate. -/
def transform (registry : Registry σ) (run : Run σ) (node : NodeId) : Run σ :=
  match run.scene.sheet.kind node with
  | .comment => obeyComment registry run node
  | .rule => { run with flipped := 0 }
  | .atRule => run.flipParams node
  | .declaration => flipDeclaration registry run node
  | .root => run

/-- The run after the value directives and the flip rules were tried on a declaration. -/
def flipValue (registry : Registry σ) (run : Run σ) (node : NodeId) : Run σ :=
  let (dealt, run) := obeyMarks registry run node
  if dealt then run else flipByRule registry run node

/-- One step of a task: the run after it, and the tasks that it leaves. -/
def Task.step (registry : Registry σ) : Task σ → Run σ → Moment σ
  | .arrive node, run =>
    if node ∈ run.scene.handled then ⟨[], run⟩
    else
      let run := { run with scene := run.scene.markHandled node }
      ⟨[.ask node (run.scene.sheet.kind node) [] false run.stack], run⟩
  | .ask node _ kept claimed [], run => ⟨if claimed then [] else [.transform node], { run with stack := kept }⟩
  | .ask node kind kept claimed (entry :: rest), run =>
    let (after, claims, closed) := Run.ask node kind entry run
    if closed then ⟨[.ask node kind kept (claimed || claims) rest], after.endDirective entry (kept ++ rest)⟩
    else ⟨[.ask node kind (kept ++ [entry]) (claimed || claims) rest], after⟩
  | .transform node, run =>
    match run.scene.sheet.kind node with
    | .comment =>
      match (run.scene.sheet.comment? node).bind Directive.Comment.parse? with
      | none => ⟨[], run⟩
      | some comment => ⟨[.obey node (comment.preserve || !run.scene.options.clean) false comment.forms], run⟩
    | .rule => ⟨[], { run with flipped := 0 }⟩
    | .atRule => ⟨[], run.flipParams node⟩
    | .declaration => ⟨[.flip node, .rename node], run⟩
    | .root => ⟨[], run⟩
  | .obey source preserve consumed [], run => ⟨[], if consumed then run.stripSource source preserve else run⟩
  | .obey source preserve consumed (form :: rest), run =>
    let (outcome, run) := Run.obey registry run (invocationOf source preserve form)
    match outcome with
    | .taken => ⟨[.obey source preserve true rest], run⟩
    | .unknown => ⟨[.obey source preserve consumed rest], run⟩
    | .final => ⟨[.obey source preserve true []], run⟩
  | .flip node, run => ⟨[], flipValue registry run node⟩
  | .rename node, run => ⟨[], run.renameAround node⟩

/-- The next moment; behind the last task nothing happens. -/
def Moment.next (registry : Registry σ) (moment : Moment σ) : Moment σ :=
  match moment.tasks with
  | [] => moment
  | task :: rest => ⟨(task.step registry moment.run).tasks ++ rest, (task.step registry moment.run).run⟩

/-- A run goes on behind a node that is done with, and asks the open directives about any other. -/
theorem next_arrive (registry : Registry σ) (node : NodeId) (rest : List (Task σ)) (run : Run σ) :
    Moment.next registry ⟨.arrive node :: rest, run⟩ =
      if node ∈ run.scene.handled then ⟨rest, run⟩
      else ⟨.ask node (run.scene.sheet.kind node) [] false run.stack :: rest, run.marked node⟩ := by
  simp only [Moment.next, Task.step]
  split
  · rfl
  · rename_i fresh
    simp only [Scene.markHandled, if_neg fresh]
    rfl

theorem run_next_obey (registry : Registry σ) (source : NodeId) (preserve consumed : Bool) (form : Directive.Form)
    (forms : List Directive.Form) (rest : List (Task σ)) (run : Run σ) :
    (Moment.next registry ⟨.obey source preserve consumed (form :: forms) :: rest, run⟩).run =
      (Run.obey registry run (invocationOf source preserve form)).2 := by
  simp only [Moment.next, Task.step]
  split <;> rfl

/-- The moments of visits to the given nodes, one after the other. -/
def courseAt (registry : Registry σ) (run : Run σ) (nodes : List NodeId) : Nat → Moment σ
  | 0 => ⟨nodes.map .arrive, run⟩
  | time + 1 => (courseAt registry run nodes time).next registry

/-! ## What is left to do -/

def Task.finish (registry : Registry σ) : Task σ → Run σ → Run σ
  | .arrive node, run => visit registry run node
  | .ask node kind kept claimed entries, run =>
    let (claimed, run) := consult node kind kept claimed entries run
    if claimed then run else Run.transform registry run node
  | .transform node, run => Run.transform registry run node
  | .obey source preserve consumed forms, run =>
    let (consumed, run) := obeyForms registry source preserve consumed forms run
    if consumed then run.stripSource source preserve else run
  | .flip node, run => flipValue registry run node
  | .rename node, run => run.renameAround node

/-- The run after all tasks that are left. -/
def Moment.finish (registry : Registry σ) (moment : Moment σ) : Run σ :=
  moment.tasks.foldl (fun run task => task.finish registry run) moment.run

section
variable (registry : Registry σ)

theorem Task.finish_step (task : Task σ) (run : Run σ) : (task.step registry run).finish registry = task.finish registry run := by
  cases task with
  | arrive node =>
    by_cases known : node ∈ run.scene.handled
    · simp only [Task.step, Task.finish, visit, gate, if_pos known]
      rfl
    · simp only [Task.step, Task.finish, visit, gate, if_neg known, Moment.finish, List.foldl_cons, List.foldl_nil]
      cases (consult node _ [] false run.stack { run with scene := run.scene.markHandled node }).1 <;> rfl
  | ask node kind kept claimed entries =>
    cases entries with
    | nil => cases claimed <;> rfl
    | cons entry rest =>
      simp only [Task.step, Task.finish, consult_cons]
      cases (Run.ask node kind entry run).2.2 <;> rfl
  | transform node =>
    simp only [Task.step, Task.finish, Run.transform]
    cases run.scene.sheet.kind node with
    | comment =>
      simp only [obeyComment]
      cases (run.scene.sheet.comment? node).bind Directive.Comment.parse? <;> rfl
    | _ => rfl
  | obey source preserve consumed forms =>
    cases forms with
    | nil => cases consumed <;> rfl
    | cons form rest =>
      rw [Task.step, Task.finish, obeyForms, ← invocationOf]
      generalize Run.obey registry run (invocationOf source preserve form) = outcome
      obtain ⟨result, after⟩ := outcome
      cases result with
      | taken => rfl
      | unknown => rfl
      | final => rfl
  | flip node => rfl
  | rename node => rfl

/-- From one moment to the next, what is left to do leads to the same run. -/
theorem Moment.finish_next (moment : Moment σ) : (moment.next registry).finish registry = moment.finish registry := by
  obtain ⟨tasks, run⟩ := moment
  cases tasks with
  | nil => rfl
  | cons task rest =>
    have stepped := Task.finish_step registry task run
    simp only [Moment.finish] at stepped
    simp only [Moment.next, Moment.finish, List.foldl_append, List.foldl_cons, stepped]

theorem finish_courseAt (run : Run σ) (nodes : List NodeId) (time : Nat) :
    (courseAt registry run nodes time).finish registry = nodes.foldl (visit registry) run := by
  induction time with
  | zero =>
    simp only [courseAt, Moment.finish, List.foldl_map]
    rfl
  | succ time ih => rw [courseAt, Moment.finish_next, ih]

/-! ## The end of a run -/

/-- After so many moments only the given tasks are left. -/
def Clears (moment : Moment σ) (rest : List (Task σ)) : Prop := ∃ steps, ((Moment.next registry)^[steps] moment).tasks = rest

theorem Clears.of_next {moment : Moment σ} {rest : List (Task σ)} (onward : Clears registry (moment.next registry) rest) :
    Clears registry moment rest := by
  obtain ⟨steps, cleared⟩ := onward
  exact ⟨steps + 1, cleared⟩

theorem clears_obey (source : NodeId) (preserve consumed : Bool) (forms : List Directive.Form) (run : Run σ)
    (rest : List (Task σ)) : Clears registry ⟨.obey source preserve consumed forms :: rest, run⟩ rest := by
  induction forms generalizing run consumed with
  | nil => exact ⟨1, rfl⟩
  | cons form others ih =>
    refine .of_next registry ?_
    simp only [Moment.next, Task.step]
    cases (Run.obey registry run (invocationOf source preserve form)).1 with
    | taken => exact ih true _
    | unknown => exact ih consumed _
    | final => exact ⟨1, rfl⟩

theorem clears_transform (node : NodeId) (run : Run σ) (rest : List (Task σ)) :
    Clears registry ⟨.transform node :: rest, run⟩ rest := by
  refine .of_next registry ?_
  simp only [Moment.next, Task.step]
  cases run.scene.sheet.kind node with
  | root => exact ⟨0, rfl⟩
  | rule => exact ⟨0, rfl⟩
  | atRule => exact ⟨0, rfl⟩
  | declaration => exact ⟨2, rfl⟩
  | comment =>
    cases (run.scene.sheet.comment? node).bind Directive.Comment.parse? with
    | none => exact ⟨0, rfl⟩
    | some comment => exact clears_obey registry node _ false comment.forms run rest

theorem clears_ask (node : NodeId) (kind : Kind) (kept : List (OpenDirective σ)) (claimed : Bool)
    (entries : List (OpenDirective σ)) (run : Run σ) (rest : List (Task σ)) :
    Clears registry ⟨.ask node kind kept claimed entries :: rest, run⟩ rest := by
  induction entries generalizing run kept claimed with
  | nil =>
    refine .of_next registry ?_
    cases claimed with
    | true => exact ⟨0, rfl⟩
    | false => exact clears_transform registry node _ rest
  | cons entry others ih =>
    refine .of_next registry ?_
    simp only [Moment.next, Task.step]
    cases (Run.ask node kind entry run).2.2 with
    | true => exact ih _ _ _
    | false => exact ih _ _ _

theorem clears_arrive (node : NodeId) (run : Run σ) (rest : List (Task σ)) :
    Clears registry ⟨.arrive node :: rest, run⟩ rest := by
  refine .of_next registry ?_
  simp only [Moment.next, Task.step]
  split
  · exact ⟨0, rfl⟩
  · exact clears_ask registry node _ _ _ _ _ rest

theorem clears_arrivals (nodes : List NodeId) (moment : Moment σ) (arrivals : moment.tasks = nodes.map .arrive) :
    Clears registry moment [] := by
  induction nodes generalizing moment with
  | nil => exact ⟨0, arrivals⟩
  | cons node rest ih =>
    obtain ⟨tasks, run⟩ := moment
    obtain rfl : tasks = _ := arrivals
    obtain ⟨first, cleared⟩ := clears_arrive registry node run (rest.map .arrive)
    obtain ⟨later, ended⟩ := ih _ cleared
    exact ⟨later + first, by rw [Function.iterate_add_apply]; exact ended⟩

theorem courseAt_eq_iterate (run : Run σ) (nodes : List NodeId) (time : Nat) :
    courseAt registry run nodes time = (Moment.next registry)^[time] ⟨nodes.map .arrive, run⟩ := by
  induction time with
  | zero => rfl
  | succ time ih => rw [courseAt, ih, Function.iterate_succ_apply']

/-- The moments of visits end with what the visits give. -/
theorem exists_courseAt_eq_visits (run : Run σ) (nodes : List NodeId) :
    ∃ time, courseAt registry run nodes time = ⟨[], nodes.foldl (visit registry) run⟩ := by
  obtain ⟨time, cleared⟩ := clears_arrivals registry nodes ⟨nodes.map .arrive, run⟩ rfl
  rw [← courseAt_eq_iterate] at cleared
  have finished := finish_courseAt registry run nodes time
  refine ⟨time, ?_⟩
  generalize courseAt registry run nodes time = moment at cleared finished ⊢
  obtain ⟨tasks, after⟩ := moment
  obtain rfl : tasks = [] := cleared
  exact congrArg (Moment.mk []) finished

/-- The moments of the visits that a run makes end with what the run gives. -/
theorem exists_courseAt_trail (run : Run σ) :
    ∃ time, courseAt registry run (trail registry run) time = ⟨[], traverse registry run⟩ := by
  rw [traverse_eq_foldl_trail]
  exact exists_courseAt_eq_visits registry run (trail registry run)

end

/-! ## Where a run stands -/

/-- Where a visit stands that has begun, with the tasks that come behind it: its own tasks are about its node, and the
directives that were asked and those that are still to be asked are the open ones. -/
inductive Stage (node : NodeId) (rest : List (Task σ)) : Moment σ → Prop where
  | asking {kept entries : List (OpenDirective σ)} (kind : Kind) (claimed : Bool) {run : Run σ}
      (row : run.stack = kept ++ entries) : Stage node rest ⟨.ask node kind kept claimed entries :: rest, run⟩
  | passing (run : Run σ) : Stage node rest ⟨.transform node :: rest, run⟩
  | obeying (preserve consumed : Bool) (forms : List Directive.Form) (run : Run σ) :
      Stage node rest ⟨.obey node preserve consumed forms :: rest, run⟩
  | flipping (run : Run σ) : Stage node rest ⟨.flip node :: .rename node :: rest, run⟩
  | naming (run : Run σ) : Stage node rest ⟨.rename node :: rest, run⟩

section
variable {registry : Registry σ} {node : NodeId} {rest : List (Task σ)}

/-- From one moment to the next a visit goes on or comes to its end. -/
theorem Stage.next {moment : Moment σ} (stage : Stage node rest moment) :
    Stage node rest (moment.next registry) ∨ (moment.next registry).tasks = rest := by
  cases stage with
  | @asking kept entries kind claimed run row =>
    cases entries with
    | nil =>
      cases claimed with
      | true => exact .inr rfl
      | false => exact .inl (.passing _)
    | cons entry others =>
      simp only [Moment.next, Task.step]
      split
      · exact .inl (.asking _ _ (stack_endDirective _ _ _))
      · exact .inl (.asking _ _ (by rw [stack_ask, row, List.append_assoc, List.singleton_append]))
  | passing run =>
    simp only [Moment.next, Task.step]
    split
    · split
      · exact .inr rfl
      · exact .inl (.obeying _ _ _ _)
    · exact .inr rfl
    · exact .inr rfl
    · exact .inl (.flipping _)
    · exact .inr rfl
  | obeying preserve consumed forms run =>
    cases forms with
    | nil => exact .inr rfl
    | cons form others =>
      simp only [Moment.next, Task.step]
      split
      · exact .inl (.obeying _ _ _ _)
      · exact .inl (.obeying _ _ _ _)
      · exact .inl (.obeying _ _ _ _)
  | flipping run => exact .inl (.naming _)
  | naming run => exact .inr rfl

/-- On arrival the gate begins to ask, or the node is done with. -/
theorem next_of_arrive (run : Run σ) :
    Stage node rest (Moment.next registry ⟨.arrive node :: rest, run⟩) ∨
      Moment.next registry ⟨.arrive node :: rest, run⟩ = ⟨rest, run⟩ := by
  simp only [Moment.next, Task.step]
  split
  · exact .inr rfl
  · exact .inl (.asking _ _ rfl)

end

/-- At each moment a run stands between two visits or in the middle of one. -/
theorem exists_stage_courseAt (registry : Registry σ) (run : Run σ) (nodes : List NodeId) (time : Nat) :
    ∃ later : List NodeId, (courseAt registry run nodes time).tasks = later.map .arrive ∨
      ∃ node, Stage node (later.map .arrive) (courseAt registry run nodes time) := by
  induction time with
  | zero => exact ⟨nodes, .inl rfl⟩
  | succ time ih =>
    obtain ⟨later, between | ⟨node, stage⟩⟩ := ih
    · rw [courseAt]
      generalize courseAt registry run nodes time = moment at between ⊢
      obtain ⟨tasks, now⟩ := moment
      obtain rfl : tasks = _ := between
      cases later with
      | nil => exact ⟨[], .inl rfl⟩
      | cons node others =>
        rcases next_of_arrive now with stage | done
        · exact ⟨others, .inr ⟨node, stage⟩⟩
        · exact ⟨others, .inl (congrArg Moment.tasks done)⟩
    · rcases stage.next with onward | left
      · exact ⟨later, .inr ⟨node, onward⟩⟩
      · exact ⟨later, .inl left⟩

/-- Forms are obeyed in the middle of a visit to their comment. -/
theorem exists_obey_of_invocations {registry : Registry σ} {run : Run σ} {nodes : List NodeId} {time : Nat}
    {invocation : Invocation} {others : List Invocation}
    (invoked : (courseAt registry run nodes time).invocations = invocation :: others) :
    ∃ (consumed : Bool) (form : Directive.Form) (forms : List Directive.Form) (later : List NodeId),
      invocation = invocationOf invocation.source invocation.preserve form ∧
      others = forms.map (invocationOf invocation.source invocation.preserve) ∧
      courseAt registry run nodes time = ⟨.obey invocation.source invocation.preserve consumed (form :: forms) ::
        later.map .arrive, (courseAt registry run nodes time).run⟩ := by
  obtain ⟨later, between | ⟨node, stage⟩⟩ := exists_stage_courseAt registry run nodes time
  · unfold Moment.invocations at invoked
    rw [between] at invoked
    cases later <;> cases invoked
  · generalize courseAt registry run nodes time = moment at stage invoked ⊢
    cases stage with
    | obeying preserve consumed forms now =>
      cases forms with
      | nil => cases invoked
      | cons form forms =>
        cases invoked
        exact ⟨consumed, form, forms, later, rfl, rfl, rfl⟩
    | _ => cases invoked

/-- The next form is obeyed by the next moment. -/
theorem run_succ_of_invocation {registry : Registry σ} {run : Run σ} {nodes : List NodeId} {time : Nat} {invocation : Invocation}
    (form : (courseAt registry run nodes time).invocations.head? = some invocation) :
    (courseAt registry run nodes (time + 1)).run = (obey registry (courseAt registry run nodes time).run invocation).2 := by
  obtain ⟨others, invoked⟩ := List.head?_eq_some_iff.mp form
  obtain ⟨consumed, form, forms, later, same, _, here⟩ := exists_obey_of_invocations invoked
  rw [courseAt, here, run_next_obey, ← same]

/-- At each moment of a single visit the run stands in front of it, in the middle of it or behind it. -/
theorem stage_courseAt_singleton (registry : Registry σ) (run : Run σ) (node : NodeId) (time : Nat) :
    (courseAt registry run [node] time).tasks = [.arrive node] ∨ Stage node [] (courseAt registry run [node] time) ∨
      (courseAt registry run [node] time).tasks = [] := by
  induction time with
  | zero => exact .inl rfl
  | succ time ih =>
    rw [courseAt]
    generalize courseAt registry run [node] time = moment at ih ⊢
    rcases ih with arriving | stage | ended
    · obtain ⟨tasks, now⟩ := moment
      obtain rfl : tasks = _ := arriving
      rcases next_of_arrive now with stage | done
      · exact .inr (.inl stage)
      · exact .inr (.inr (congrArg Moment.tasks done))
    · exact .inr stage.next
    · obtain ⟨tasks, now⟩ := moment
      obtain rfl : tasks = _ := ended
      exact .inr (.inr rfl)

end StyleFlip.Run

namespace StyleFlip.Engine
variable {σ : Type}

/-- The moments of a run of an engine. -/
def momentAt (engine : Engine σ) (sheet : Sheet) (time : Nat) : Run.Moment σ :=
  Run.courseAt engine.registry (engine.start sheet) (engine.trail sheet) time

/-- The moments of a run end with what the traversal gives. -/
theorem exists_momentAt_eq_traverse (engine : Engine σ) (sheet : Sheet) :
    ∃ last, engine.momentAt sheet last = ⟨[], Run.traverse engine.registry (engine.start sheet)⟩ :=
  Run.exists_courseAt_trail engine.registry (engine.start sheet)

end StyleFlip.Engine
