import StyleFlip.Proofs.Course
import StyleFlip.Proofs.Twins

/-!
What the option to strip directives changes. Two runs over a sheet, one that strips and one that does not, go through the
same moments (`Lockstep`): each visit does the same to both (`Twins.visit`), so they come to the same nodes at the same steps
(`twins_runAt`), and in the end their reports are the same and their sheets differ in comments and marks alone
(`flip_differs_in_comments`). This holds as long as stylesheet text that is put in before its comment finds the comment in
both runs or in neither (`GraftsAlike`), which is so if no form that puts text in comes behind one that only closes
(`graftsAlike_of_forms`, `flip_strips_comments`); a comment that closes what it opened itself may have been stripped too early
(`drops_raw_of_stripped_comment`).
-/
namespace StyleFlip.Standard
open Run (Moment)

/-- The form puts stylesheet text in before its comment. -/
def opensRaw (form : Directive.Form) : Bool := form.opens && form.name == "raw".toList

/-- At this moment stylesheet text is put in before a comment. -/
def grafts (moment : Moment State) : Bool :=
  match moment.tasks with
  | .obey _ _ _ (form :: _) :: _ => opensRaw form && !moment.run.scene.options.disables pluginName form.name
  | _ => false

/-! ## One visit -/

/-- A declaration that still says what was read. -/
def AsRead (sheet : Sheet) (c : Nat) (run : Run State) : Prop :=
  sheet.kind c = .declaration → run.scene.sheet.content c = sheet.content c

/-- Two runs that stand at the same place in their visits to node `c`. -/
inductive Lockstep (sheet : Sheet) (dealt : Nat → Prop) (c : Nat) : Moment State → Moment State → Prop where
  | arriving {bare full : Run State} (twins : Twins sheet dealt bare full) (first : Reached sheet (IsLeaf sheet) c bare)
      (second : Reached sheet (IsLeaf sheet) c full) : Lockstep sheet dealt c ⟨[.arrive c], bare⟩ ⟨[.arrive c], full⟩
  | asking {bare full : Run State} {kept entries front ahead : List (OpenDirective State)} (kind : Kind) (claimed : Bool)
      (twins : Twins sheet dealt bare full) (asked : List.Forall₂ (SameEntry sheet) kept front)
      (unasked : List.Forall₂ (SameEntry sheet) entries ahead) (row : full.stack = front ++ ahead)
      (read : AsRead sheet c bare ∧ AsRead sheet c full) :
      Lockstep sheet dealt c ⟨[.ask c kind kept claimed entries], bare⟩ ⟨[.ask c kind front claimed ahead], full⟩
  | passing {bare full : Run State} (twins : Twins sheet dealt bare full) (read : AsRead sheet c bare ∧ AsRead sheet c full) :
      Lockstep sheet dealt c ⟨[.transform c], bare⟩ ⟨[.transform c], full⟩
  | obeying {bare full : Run State} {preserve keep : Bool} (consumed : Bool) (forms : List Directive.Form)
      (order : preserve = true → keep = true) (comment : sheet.kind c = .comment) (twins : Twins sheet dealt bare full) :
      Lockstep sheet dealt c ⟨[.obey c preserve consumed forms], bare⟩ ⟨[.obey c keep consumed forms], full⟩
  | flipping {bare full : Run State} (declares : sheet.kind c = .declaration) (twins : Twins sheet dealt bare full)
      (read : AsRead sheet c bare ∧ AsRead sheet c full) :
      Lockstep sheet dealt c ⟨[.flip c, .rename c], bare⟩ ⟨[.flip c, .rename c], full⟩
  | naming {bare full : Run State} (declares : sheet.kind c = .declaration) (twins : Twins sheet dealt bare full) :
      Lockstep sheet dealt c ⟨[.rename c], bare⟩ ⟨[.rename c], full⟩
  | done {bare full : Run State} (twins : Twins sheet dealt bare full) : Lockstep sheet dealt c ⟨[], bare⟩ ⟨[], full⟩

section
variable {sheet : Sheet} {whole : Item} {dealt : Nat → Prop} {c : Nat} {run : Run State}

/-- Open directives may cut a declaration off but not change it. -/
theorem content_enter {control : Control State} (member : control ∈ (plugin (.whole State)).controls) {kind : Kind}
    (wanted : control.interest.accepts kind = true) (form : Invocation) (declares : run.scene.sheet.kind c = .declaration) :
    (run.call (control.enter c form)).2.scene.sheet.content c = run.scene.sheet.content c := by
  obtain rfl | rfl | rfl | rfl | rfl := control_cases member
  · rfl
  · have none : run.scene.sheet.selector? c = none := by
      cases found : run.scene.sheet.selector? c with
      | none => rfl
      | some selector => rw [Sheet.kind, Sheet.content_of_selector? found] at declares; cases declares
    simp only [enter_rename, Run.call, enterRename, none]
  · exact Sheet.content_remove _ _ _
  · cases wanted
  · cases wanted

theorem sheet_leave {control : Control State} (member : control ∈ (plugin (.whole State)).controls) (node : NodeId)
    (form : Invocation) : (run.call (control.leave node form)).2.scene.sheet = run.scene.sheet := by
  obtain rfl | rfl | rfl | rfl | rfl := control_cases member
  · simp only [leave_ignore, Run.call, leaveIgnore]
    split <;> rfl
  · rfl
  · rfl
  · rfl
  · simp only [leave_options, Run.call, leaveOptions, Scene.adopt?]
    split
    · rfl
    · split
      · rfl
      · split <;> rfl

theorem AsRead.ask (read : AsRead sheet c run) (kind : Kind) {entry : OpenDirective State} (genuine : Genuine entry) :
    AsRead sheet c (Run.ask c kind entry run).1 := by
  intro declares
  have here : run.scene.sheet.kind c = .declaration := by
    rw [Sheet.kind, read declares]
    exact declares
  unfold Run.ask
  split
  · exact read declares
  · rename_i control found
    obtain ⟨member, _⟩ := genuine.control control found
    simp only
    split
    · rename_i wanted
      have entered := content_enter member wanted entry.invocation here
      split
      · rw [sheet_leave member, entered]
        exact read declares
      · rw [entered]
        exact read declares
    · exact read declares

theorem AsRead.endDirective (read : AsRead sheet c run) (entry : OpenDirective State) (stack : List (OpenDirective State)) :
    AsRead sheet c (run.endDirective entry stack) := by
  intro declares
  unfold Run.endDirective Run.stripSource
  split
  · exact read declares
  · simp only [Run.setSheet, Sheet.content_remove]
    exact read declares

theorem Point.exists_during {moment : Moment State} (point : Point sheet moment) {task : Run.Task State}
    {rest : List (Run.Task State)}
    (tasks : moment.tasks = task :: rest) (begun : ∀ node, task ≠ .arrive node) :
    ∃ earlier, During sheet (IsLeaf sheet) task.node earlier moment.run := by
  cases point with
  | @between k later run reached sorted ahead =>
    cases later with
    | nil => cases tasks
    | cons first others =>
      obtain ⟨rfl, _⟩ := List.cons.inj tasks
      exact absurd rfl (begun first)
  | @within c later moment standing inside sorted ahead =>
    obtain ⟨stage, during, _⟩ := standing
    cases stage <;> cases tasks <;> exact during

theorem grafts_of_raw {preserve consumed : Bool} {form : Directive.Form} {others : List Directive.Form}
    (opens : form.opens = true) (named : form.name = "raw".toList) (enabled : run.scene.options.disables pluginName form.name = false) :
    grafts ⟨[.obey c preserve consumed (form :: others)], run⟩ = true := by
  simp only [grafts, opensRaw, opens, enabled, Bool.true_and, Bool.not_false, Bool.and_true, beq_iff_eq]
  exact named

/-- From one moment to the next two runs stay in step. -/
theorem Lockstep.next (holds : sheet.Holds whole) (inside : c < sheet.size) (options : Options) {one two : Moment State}
    (lockstep : Lockstep sheet dealt c one two) (first : Point sheet one) (second : Point sheet two)
    (stands : grafts one = true → one.run.scene.sheet.parent c = none → two.run.scene.sheet.parent c = none)
    (deals : one.tasks.head? = some (.flip c) → dealt c) :
    Lockstep sheet dealt c (one.next (engine options).registry) (two.next (engine options).registry) := by
  cases lockstep with
  | @arriving bare full twins early late =>
    rw [Run.next_arrive, Run.next_arrive, if_neg (early.not_mem_handled inside), if_neg (late.not_mem_handled inside)]
    have marked : Twins sheet dealt (bare.marked c) (full.marked c) :=
      twins.handle twins.store { twins.scene with handled := congrArg (c :: ·) twins.scene.handled }
    rw [twins.scene.kind_eq]
    have reads : ∀ {run : Run State}, Reached sheet (IsLeaf sheet) c run → AsRead sheet c (run.marked c) := by
      intro run reached _
      simp only [Run.sheet_marked, Sheet.content, reached.node_eq inside]
    exact .asking _ false marked .nil marked.stack rfl ⟨reads early, reads late⟩
  | @asking bare full kept entries front ahead kind claimed twins asked unasked row read =>
    cases unasked with
    | nil =>
      have closed := twins.setStack asked
      cases claimed with
      | true => exact .done closed
      | false => exact .passing closed read
    | @cons entry other rest later same tail =>
      obtain ⟨_, early⟩ := first.exists_during rfl (fun _ => by simp)
      obtain ⟨_, late⟩ := second.exists_during rfl (fun _ => by simp)
      have genuine : Genuine other := (late.stack other (by rw [row]; simp)).2
      obtain ⟨answers, after⟩ := twins.ask holds inside early late kind genuine same
      have reads := And.intro (read.1.ask kind (same.genuine genuine)) (read.2.ask kind genuine)
      simp only [Moment.next, Run.Task.step, answers]
      split
      · exact .asking _ _ (after.endDirective same (List.rel_append asked tail)) asked tail (Run.stack_endDirective _ _ _)
          ⟨reads.1.endDirective _ _, reads.2.endDirective _ _⟩
      · exact .asking _ _ after (List.rel_append asked (.cons same .nil)) tail
          (by rw [Run.stack_ask, row, List.append_assoc, List.singleton_append]) reads
  | @passing bare full twins read =>
    obtain ⟨_, early⟩ := first.exists_during rfl (fun _ => by simp)
    obtain ⟨_, late⟩ := second.exists_during rfl (fun _ => by simp)
    have comments : bare.scene.sheet.comment? c = full.scene.sheet.comment? c := early.comment.trans late.comment.symm
    have known := twins.scene.kinds c inside
    simp only [Moment.next, Run.Task.step, twins.scene.kind_eq, known]
    split
    · rename_i comment
      simp only [comments]
      cases (full.scene.sheet.comment? c).bind Directive.Comment.parse? with
      | none => exact .done twins
      | some parsed =>
        -- A comment that the stripping run keeps is kept by the other.
        obtain ⟨clean, same, order⟩ := twins.scene.options
        refine .obeying false _ ?_ comment twins
        rw [same]
        cases strips : full.scene.options.clean with
        | false => simp
        | true => simp [order strips]
    · exact .done { twins with flipped := rfl }
    · exact .done (twins.flipParams c)
    · rename_i declares
      exact .flipping declares twins read
    · exact .done twins
  | @obeying bare full preserve keep consumed forms order comment twins =>
    cases forms with
    | nil =>
      cases consumed with
      | true => exact .done (twins.stripSource comment order)
      | false => exact .done twins
    | cons form others =>
      obtain ⟨_, early⟩ := first.exists_during rfl (fun _ => by simp)
      obtain ⟨_, late⟩ := second.exists_during rfl (fun _ => by simp)
      have same : SameForm (Run.invocationOf c preserve form) (Run.invocationOf c keep form) := ⟨preserve, rfl, order⟩
      obtain ⟨outcome, obeyed⟩ := twins.obey holds inside options early late same rfl comment
        fun opens named enabled => stands (grafts_of_raw opens named enabled)
      simp only [Moment.next, Run.Task.step, outcome]
      split
      · exact .obeying true others order comment obeyed
      · exact .obeying consumed others order comment obeyed
      · exact .obeying true [] order comment obeyed
  | @flipping bare full declares twins read =>
    obtain ⟨decl, content⟩ := Sheet.exists_content_of_declaration declares
    exact .naming declares (twins.flipValue options content ((read.1 declares).trans content)
      ((read.2 declares).trans content) (deals rfl))
  | @naming bare full declares twins =>
    refine .done (twins.renameAround ?_)
    rw [twins.scene.kinds c inside, declares]
    simp
  | done twins => exact .done twins

theorem point_visit (holds : sheet.Holds whole) (inside : c < sheet.size) (options : Options)
    (reached : Reached sheet (IsLeaf sheet) c run) (time : Nat) :
    Point sheet (Run.courseAt (engine options).registry run [c] time) := by
  induction time with
  | zero =>
    refine @Point.between sheet c [c] run reached (List.pairwise_singleton _ _) ?_
    intro n member
    rw [List.mem_singleton.mp member]
    exact ⟨Nat.le_refl c, inside⟩
  | succ time ih => exact ih.next holds options

/-- Visits to the same node in step keep the runs twins. -/
theorem Twins.visit (holds : sheet.Holds whole) (inside : c < sheet.size) (options : Options) {bare full : Run State}
    (twins : Twins sheet dealt bare full) (first : Reached sheet (IsLeaf sheet) c bare)
    (second : Reached sheet (IsLeaf sheet) c full)
    (stands : ∀ time, grafts (Run.courseAt (engine options).registry bare [c] time) = true →
      (Run.courseAt (engine options).registry bare [c] time).run.scene.sheet.parent c = none →
      (Run.courseAt (engine options).registry full [c] time).run.scene.sheet.parent c = none)
    (deals : ∀ time, (Run.courseAt (engine options).registry bare [c] time).tasks.head? = some (.flip c) → dealt c) :
    Twins sheet dealt (Run.visit (engine options).registry bare c) (Run.visit (engine options).registry full c) := by
  have lockstep : ∀ time, Lockstep sheet dealt c (Run.courseAt (engine options).registry bare [c] time)
      (Run.courseAt (engine options).registry full [c] time) := by
    intro time
    induction time with
    | zero => exact .arriving twins first second
    | succ time ih =>
      exact ih.next holds inside options (point_visit holds inside options first time)
        (point_visit holds inside options second time) (stands time) (deals time)
  obtain ⟨time, ended⟩ := Run.exists_courseAt_eq_visits (engine options).registry bare [c]
  have finished := Run.finish_courseAt (engine options).registry full [c] time
  have last := lockstep time
  rw [ended] at last
  generalize Run.courseAt (engine options).registry full [c] time = moment at last finished
  cases last with
  | done twins =>
    have same : _ = Run.visit (engine options).registry full c := finished
    rw [← same]
    exact twins

end

/-! ## Two runs -/

/-- Value directives are tried on the node at some moment of a run. -/
def isTried (options : Options) (sheet : Sheet) (n : Nat) : Prop :=
  ∃ step time, (Run.courseAt (engine options).registry (runAt options sheet step) [nodeAt options sheet step] time).tasks.head? =
    some (.flip n)

/-- Where stylesheet text is put in, a comment that the first run has cut off is cut off in the second run as well. -/
def GraftsAlike (one two : Options) (sheet : Sheet) : Prop :=
  ∀ step time,
    let node := nodeAt one sheet step
    let first := Run.courseAt (engine one).registry (runAt one sheet step) [node] time
    let second := Run.courseAt (engine two).registry (runAt two sheet step) [nodeAt two sheet step] time
    node < sheet.size → grafts first = true → first.run.scene.sheet.parent node = none → second.run.scene.sheet.parent node = none

section
variable {one two : Options} {sheet : Sheet} {whole : Item}

theorem twins_start (holds : sheet.Holds whole) (alike : Alike one two) (dealt : Nat → Prop) :
    Twins sheet dealt ((engine one).start sheet) ((engine two).start sheet) := by
  have map : one.map = two.map := by
    obtain ⟨clean, rfl, _⟩ := alike
    rfl
  have scenes : TwinScenes sheet dealt ((engine one).start sheet).scene ((engine two).start sheet).scene :=
    ⟨⟨[], .refl holds⟩, fun _ _ => .inl rfl, Nat.le_refl _, fun _ _ => rfl, alike, map, rfl, rfl⟩
  exact ⟨⟨rfl, .nil⟩, scenes, .nil, rfl, rfl, rfl⟩

/-- Both runs come to the same nodes at the same steps. -/
theorem twins_runAt {text : Text} (parsed : Sheet.parse text = .ok sheet) (holds : sheet.Holds whole) (alike : Alike one two)
    (standing : GraftsAlike one two sheet) (step : Nat) :
    nodeAt one sheet step = nodeAt two sheet step ∧
      Twins sheet (isTried one sheet) (runAt one sheet step) (runAt two sheet step) := by
  induction step with
  | zero => exact ⟨rfl, twins_start holds alike _⟩
  | succ step ih =>
    obtain ⟨number, twins⟩ := ih
    by_cases inside : nodeAt one sheet step < sheet.size
    · have first : Reached sheet (IsLeaf sheet) (nodeAt one sheet step) (runAt one sheet step) := reached_runAt holds step
      have second : Reached sheet (IsLeaf sheet) (nodeAt two sheet step) (runAt two sheet step) := reached_runAt holds step
      have agree : nodeAt two sheet step < sheet.size := number ▸ inside
      rw [nodeAt_succ inside, nodeAt_succ agree, runAt_succ inside, runAt_succ agree]
      have stands := fun time => standing step time inside
      rw [← number] at second stands ⊢
      have visited := twins.visit holds inside one first second stands fun time flips => ⟨step, time, flips⟩
      refine ⟨?_, visited⟩
      -- A comment may be cut off in one run only, but nothing stands below it.
      obtain ⟨gone, stripped⟩ := visited.scene.stripped
      have kind := visited.scene.kinds _ inside
      by_cases comment : sheet.kind (nodeAt one sheet step) = .comment
      · simp only [Run.resume, Sheet.stop_of_children_eq_nil (Sheet.children_of_comment parsed comment), ite_self]
      · rw [Run.resume, stripped.parent_eq (by rw [kind]; exact comment)]
        rfl
    · have ended : ¬ nodeAt two sheet step < sheet.size := number ▸ inside
      rw [(walk_over inside).1, (walk_over inside).2, (walk_over ended).1, (walk_over ended).2]
      exact ⟨number, twins⟩

end

/-! ## Comments that stand -/

/-- A run in its visit to a comment that stands where it was read, as long as it has forms left that put text in. -/
inductive Intact (sheet : Sheet) (c : Nat) : Moment State → Prop where
  | arriving {run : Run State} (reached : Reached sheet (IsLeaf sheet) c run) : Intact sheet c ⟨[.arrive c], run⟩
  | asking {run : Run State} (kept : List (OpenDirective State)) (claimed : Bool) (entries : List (OpenDirective State))
      (stands : run.scene.sheet.parent c = sheet.parent c)
      (foreign : ∀ entry ∈ entries, entry.invocation.source ≠ c ∧ Genuine entry) :
      Intact sheet c ⟨[.ask c .comment kept claimed entries], run⟩
  | passing {run : Run State} (stands : run.scene.sheet.parent c = sheet.parent c) : Intact sheet c ⟨[.transform c], run⟩
  | obeying {run : Run State} {forms : List Directive.Form} (preserve consumed : Bool)
      (stands : run.scene.sheet.parent c = sheet.parent c ∨ ∀ form ∈ forms, opensRaw form = false)
      (ordered : forms.Pairwise fun earlier later => earlier.opens = false → opensRaw later = false) :
      Intact sheet c ⟨[.obey c preserve consumed forms], run⟩
  | done (run : Run State) : Intact sheet c ⟨[], run⟩

section
variable {sheet : Sheet} {whole : Item} {c : Nat} {run : Run State}

/-- Of the open directives, only `ignore` is asked about comments. -/
theorem sheet_ask_comment {entry : OpenDirective State} (genuine : Genuine entry) :
    (Run.ask c .comment entry run).1.scene.sheet = run.scene.sheet := by
  unfold Run.ask
  split
  · rfl
  · rename_i control found
    obtain ⟨member, _⟩ := genuine.control control found
    simp only
    split
    · rename_i wanted
      have entered : (run.call (control.enter c entry.invocation)).2.scene.sheet = run.scene.sheet := by
        obtain rfl | rfl | rfl | rfl | rfl := control_cases member
        · rfl
        · cases wanted
        · cases wanted
        · cases wanted
        · cases wanted
      split
      · rw [sheet_leave member, entered]
      · exact entered
    · rfl

theorem parent_endDirective {entry : OpenDirective State} (foreign : entry.invocation.source ≠ c)
    (stack : List (OpenDirective State)) : (run.endDirective entry stack).scene.sheet.parent c = run.scene.sheet.parent c := by
  unfold Run.endDirective Run.stripSource
  split
  · rfl
  · simp only [Run.setSheet, Sheet.parent_remove, if_neg (Ne.symm foreign)]

/-- A directive that is done within its own comment leaves all nodes where they are. -/
theorem spread_completes {control : Control State} (member : control ∈ (plugin (.whole State)).controls) (form : Invocation) :
    run.scene.sheet.Spread (run.completes control form).2.scene.sheet := by
  unfold Run.completes
  split
  · rename_i itself
    have entered : run.scene.sheet.Spread (run.call (control.enter form.source form)).2.scene.sheet := by
      obtain rfl | rfl | rfl | rfl | rfl := control_cases member
      · cases itself
      · cases itself
      · cases itself
      · obtain ⟨_, _, _, _, same⟩ | ⟨_, _, _, same⟩ := enterRaw_cases form.source form run.store run.scene <;>
          simp only [enter_raw, Run.call, same]
        · exact .insertItemsBefore _ _ _
        · exact .refl _
      · simp only [enter_options, Run.call, enterOptions, Scene.adopt?]
        split
        · split <;> exact .refl _
        · exact .refl _
    simp only
    split
    · rw [sheet_leave member]
      exact entered
    · exact entered
  · exact .refl _

/-- A form that opens a directive leaves all nodes where they are. -/
theorem spread_obey_of_opens (options : Options) (form : Invocation) (opens : form.opens = true) :
    run.scene.sheet.Spread (Run.obey (engine options).registry run form).2.scene.sheet := by
  unfold Run.obey
  split
  · unfold Run.passOver
    simp only [opens, if_true]
    cases form.closes <;> exact .refl _
  · exact .refl _
  · rename_i control found
    have completed : run.scene.sheet.Spread _ := spread_completes (of_lookup_eq_found found).1 form
    simp only [opens, if_true]
    split
    · exact completed
    · exact completed

theorem Intact.next (inside : c < sheet.size) (options : Options) {moment : Moment State}
    (intact : Intact sheet c moment) (point : Point sheet moment) (comment : sheet.kind c = .comment)
    (ordered : (formsAt sheet c).Pairwise fun earlier later => earlier.opens = false → opensRaw later = false) :
    Intact sheet c (moment.next (engine options).registry) := by
  cases intact with
  | @arriving run reached =>
    have same := reached.node_eq inside
    have kind : run.scene.sheet.kind c = .comment := by
      rw [Sheet.kind, Sheet.content, same]
      exact comment
    rw [Run.next_arrive, if_neg (reached.not_mem_handled inside), kind]
    refine .asking _ _ _ (congrArg Node.parent same) ?_
    intro entry member
    obtain ⟨before, genuine⟩ := reached.stack entry member
    exact ⟨Nat.ne_of_lt before, genuine⟩
  | @asking run kept claimed entries stands foreign =>
    cases entries with
    | nil =>
      cases claimed with
      | true => exact .done _
      | false => exact .passing stands
    | cons entry others =>
      obtain ⟨other, genuine⟩ := foreign entry List.mem_cons_self
      have asked : (Run.ask c .comment entry run).1.scene.sheet.parent c = sheet.parent c := by
        rw [sheet_ask_comment genuine, stands]
      have fewer : ∀ entry ∈ others, entry.invocation.source ≠ c ∧ Genuine entry :=
        fun entry member => foreign entry (List.mem_cons_of_mem _ member)
      simp only [Moment.next, Run.Task.step]
      split
      · exact .asking _ _ _ ((parent_endDirective other _).trans asked) fewer
      · exact .asking _ _ _ asked fewer
  | @passing run stands =>
    obtain ⟨_, during⟩ := point.exists_during rfl (fun _ => by simp)
    have here : run.scene.sheet.comment? c = sheet.comment? c := during.comment
    have kind : run.scene.sheet.kind c = .comment := by
      rw [Sheet.kind_eq_comment_iff] at comment ⊢
      rw [here]
      exact comment
    simp only [Moment.next, Run.Task.step, kind, here]
    rw [formsAt] at ordered
    cases read : (sheet.comment? c).bind Directive.Comment.parse? with
    | none => exact .done run
    | some found =>
      rw [read] at ordered
      exact .obeying _ false (.inl stands) ordered
  | @obeying run forms preserve consumed stands ordered =>
    cases forms with
    | nil => exact .done _
    | cons form others =>
      obtain ⟨_, during⟩ := point.exists_during rfl (fun _ => by simp)
      have onward : ∀ consumed, Intact sheet c ⟨[.obey c preserve consumed others],
          (Run.obey (engine options).registry run (Run.invocationOf c preserve form)).2⟩ := by
        intro consumed
        obtain ⟨behind, rest⟩ := List.pairwise_cons.mp ordered
        refine .obeying preserve consumed ?_ rest
        cases opens : form.opens with
        | false => exact .inr fun later member => behind later member opens
        | true =>
          have here : c < run.scene.sheet.size := Nat.lt_of_lt_of_le inside during.size
          have spread : run.scene.sheet.Spread _ := spread_obey_of_opens options (Run.invocationOf c preserve form) opens
          rw [spread.parent c here]
          exact stands.imp_right fun none later member => none later (List.mem_cons_of_mem _ member)
      simp only [Moment.next, Run.Task.step]
      split
      · exact onward true
      · exact onward consumed
      · exact .obeying preserve true (.inr fun _ none => by cases none) .nil
  | done run => exact .done run

theorem Intact.stands {moment : Moment State} (intact : Intact sheet c moment) (graft : grafts moment = true) :
    moment.run.scene.sheet.parent c = sheet.parent c := by
  cases intact with
  | @obeying run forms preserve consumed stands ordered =>
    cases forms with
    | nil => cases graft
    | cons form others =>
      rcases stands with same | none
      · exact same
      · simp [grafts, none form List.mem_cons_self] at graft
  | _ => cases graft

theorem kind_of_mem_formsAt {form : Directive.Form} (member : form ∈ formsAt sheet c) : sheet.kind c = .comment := by
  rw [Sheet.kind_eq_comment_iff]
  cases found : sheet.comment? c with
  | none => simp [formsAt, found] at member
  | some text => rfl

/-- Text is put in before comments only. -/
theorem kind_of_grafts {moment : Moment State} (point : Point sheet moment)
    (stage : moment.tasks = [.arrive c] ∨ Run.Stage c [] moment ∨ moment.tasks = []) (graft : grafts moment = true) :
    sheet.kind c = .comment := by
  unfold grafts at graft
  split at graft
  · rename_i source preserve consumed form others rest tasks
    have own : source = c := by
      rcases stage with arriving | stage | ended
      · rw [arriving] at tasks
        cases tasks
      · cases stage <;> cases tasks
        rfl
      · rw [ended] at tasks
        cases tasks
    cases point with
    | @between k later run _ _ _ => cases later <;> cases tasks
    | @within c' later moment standing inside _ _ =>
      have here : c' = c := by
        rw [← own]
        cases standing.stage <;> cases tasks
        rfl
      subst here own
      exact kind_of_mem_formsAt (standing.forms preserve consumed (form :: others) (by rw [tasks]; rfl) List.mem_cons_self)
  · cases graft

/-- Text finds its comment where it was read, if in no comment a form that puts text in comes behind one that only closes. -/
theorem graftsAlike_of_forms {text : Text} (parsed : Sheet.parse text = .ok sheet)
    (ordered : ∀ node < sheet.size, (formsAt sheet node).Pairwise fun earlier later => earlier.opens = false → opensRaw later = false)
    (one two : Options) : GraftsAlike one two sheet := by
  intro step time node first second inside graft cut
  obtain ⟨items, trailing, _, holds⟩ := Sheet.exists_holds_of_parse parsed
  have reached : Reached sheet (IsLeaf sheet) (nodeAt one sheet step) (runAt one sheet step) := reached_runAt holds step
  have points := point_visit holds inside one reached
  have comment : sheet.kind (nodeAt one sheet step) = .comment :=
    kind_of_grafts (points time) (Run.stage_courseAt_singleton _ _ _ time) graft
  have intact : ∀ time, Intact sheet node (Run.courseAt (engine one).registry (runAt one sheet step) [node] time) := by
    intro time
    induction time with
    | zero => exact .arriving reached
    | succ time ih => exact ih.next inside one (points time) comment (ordered _ inside)
  rw [(intact time).stands graft] at cut
  exact absurd cut (Sheet.parent_of_comment parsed inside comment)

/-- The runs with and without stripping end as twins. -/
theorem twins_traverse {text : Text} (parsed : Sheet.parse text = .ok sheet) (options : Options)
    (standing : GraftsAlike { options with clean := true } { options with clean := false } sheet) :
    let cleaning := engine { options with clean := true }
    let keeping := engine { options with clean := false }
    Twins sheet (isTried { options with clean := true } sheet) (Run.traverse cleaning.registry (cleaning.start sheet))
      (Run.traverse keeping.registry (keeping.start sheet)) := by
  obtain ⟨items, trailing, _, holds⟩ := Sheet.exists_holds_of_parse parsed
  have alike : Alike { options with clean := true } { options with clean := false } := ⟨true, rfl, fun _ => rfl⟩
  obtain ⟨_, twins⟩ := twins_runAt parsed holds alike standing sheet.size
  rwa [runAt_size _ holds, runAt_size _ holds] at twins

end

/-- Whether directives are stripped or not makes no difference but to comments and to the marks of declarations that a value
directive has dealt with, if text that is put in finds its comment in both runs or in neither. -/
theorem flip_differs_in_comments {text : Text} {sheet : Sheet} (parsed : Sheet.parse text = .ok sheet) (options : Options)
    (standing : GraftsAlike { options with clean := true } { options with clean := false } sheet) :
    let cleaned := (engine { options with clean := true }).flip sheet
    let kept := (engine { options with clean := false }).flip sheet
    let dealt := fun n => isMarked sheet n = true ∧ isTried { options with clean := true } sheet n
    cleaned.2.1 = kept.2.1 ∧
    (∃ gone, kept.1.Stripped gone (fun n => ¬ dealt n) cleaned.1) ∧
    ∀ n, cleaned.1.selector? n = kept.1.selector? n ∧ cleaned.1.params? n = kept.1.params? n ∧
      (cleaned.1.declaration? n).map (·.property) = (kept.1.declaration? n).map (·.property) ∧
      (kept.1.kind n ≠ .comment → cleaned.1.parent n = kept.1.parent n) ∧
      (dealt n → cleaned.1.content n = kept.1.content n ∨
        ∃ decl, kept.1.content n = .declaration decl ∧ cleaned.1.content n = .declaration decl.withoutMarks) := by
  intro cleaned kept dealt
  have twins := twins_traverse parsed options standing
  have scene : TwinScenes sheet _ _ _ := twins.scene
  obtain ⟨gone, stripped⟩ := scene.stripped
  refine ⟨twins.report_eq, ⟨gone, stripped⟩, fun n => ?_⟩
  exact ⟨scene.selector?_eq n, scene.params?_eq n, scene.property_eq n, stripped.parent_eq, scene.marks n⟩

/-- Text comes in from a comment that also opens a directive which is switched off, and the comment is stripped behind it. -/
theorem flip_differs_in_comments_switched_off :
    ∃ sheet, Sheet.parse "/*rtl:begin:ignore rtl:raw:.x\x7b\x7d*/.a\x7b\x7d/*rtl:end:ignore*/".toList = .ok sheet ∧
      let options : Options := { blacklist := [(pluginName, [("ignore".toList, true)])] }
      let cleaned := (engine { options with clean := true }).flip sheet
      let kept := (engine { options with clean := false }).flip sheet
      GraftsAlike { options with clean := true } { options with clean := false } sheet ∧ cleaned.2.1 = kept.2.1 ∧
      (∃ gone, kept.1.Stripped gone (fun n => ¬ (isMarked sheet n = true ∧ isTried { options with clean := true } sheet n))
        cleaned.1) ∧
      cleaned.1.toText = ".x\x7b\x7d.a\x7b\x7d".toList ∧
      kept.1.toText = ".x\x7b\x7d/*rtl:begin:ignore rtl:raw:.x\x7b\x7d*/.a\x7b\x7d/*rtl:end:ignore*/".toList := by
  let options : Options := { blacklist := [(pluginName, [("ignore".toList, true)])] }
  obtain ⟨sheet, parsed, test⟩ := Sheet.exists_of_readable
    (by decide +kernel : (Sheet.parse "/*rtl:begin:ignore rtl:raw:.x\x7b\x7d*/.a\x7b\x7d/*rtl:end:ignore*/".toList).toOption.any
      (fun sheet => decide (∀ node < sheet.size, (formsAt sheet node).Pairwise
          fun earlier later => earlier.opens = false → opensRaw later = false) &&
        ((engine { options with clean := true }).flip sheet).1.toText == ".x\x7b\x7d.a\x7b\x7d".toList &&
        ((engine { options with clean := false }).flip sheet).1.toText ==
          ".x\x7b\x7d/*rtl:begin:ignore rtl:raw:.x\x7b\x7d*/.a\x7b\x7d/*rtl:end:ignore*/".toList) = true)
  simp only [Bool.and_eq_true, decide_eq_true_eq, beq_iff_eq] at test
  obtain ⟨⟨ordered, bare⟩, full⟩ := test
  have standing := graftsAlike_of_forms parsed ordered { options with clean := true } { options with clean := false }
  obtain ⟨reports, stripped, _⟩ := flip_differs_in_comments parsed options standing
  exact ⟨sheet, parsed, standing, reports, stripped, bare, full⟩

/-- The same by what is written alone: if in no comment a form that puts text in comes behind one that only closes, stripping
takes away comments and the marks of declarations, and changes nothing else. -/
theorem flip_strips_comments {text : Text} {sheet : Sheet} (parsed : Sheet.parse text = .ok sheet) (options : Options)
    (ordered : ∀ node < sheet.size,
      (formsAt sheet node).Pairwise fun earlier later => earlier.opens = false → opensRaw later = false) :
    let cleaned := (engine { options with clean := true }).flip sheet
    let kept := (engine { options with clean := false }).flip sheet
    cleaned.2.1 = kept.2.1 ∧
    (∃ gone, kept.1.Stripped gone (fun n => isMarked sheet n = false) cleaned.1) ∧
    ∀ n, cleaned.1.content n = kept.1.content n ∨
      ∃ decl, kept.1.content n = .declaration decl ∧ cleaned.1.content n = .declaration decl.withoutMarks := by
  intro cleaned kept
  have twins := twins_traverse parsed options (graftsAlike_of_forms parsed ordered _ _)
  obtain ⟨gone, stripped⟩ := twins.scene.stripped
  refine ⟨twins.report_eq, ⟨gone, { stripped with content := fun n plain => stripped.content n ?_ }⟩, twins.scene.content_cases⟩
  simp [plain]

/-- A comment that closes what it has opened is stripped at once if the directive is switched off, and the text that it puts in
behind that finds no place. -/
theorem drops_raw_of_stripped_comment :
    ∃ sheet, Sheet.parse "/*rtl:begin:ignore rtl:end:ignore rtl:raw:.x\x7b\x7d*/.a\x7b\x7d".toList = .ok sheet ∧
      let options : Options := { blacklist := [(pluginName, [("ignore".toList, true)])] }
      let cleaned := (engine { options with clean := true }).flip sheet
      let kept := (engine { options with clean := false }).flip sheet
      cleaned.1.toText = ".a\x7b\x7d".toList ∧
      kept.1.toText = ".x\x7b\x7d/*rtl:begin:ignore rtl:end:ignore rtl:raw:.x\x7b\x7d*/.a\x7b\x7d".toList ∧
      cleaned.1.size < kept.1.size := by
  let options : Options := { blacklist := [(pluginName, [("ignore".toList, true)])] }
  obtain ⟨sheet, parsed, test⟩ := Sheet.exists_of_readable
    (by decide +kernel : (Sheet.parse "/*rtl:begin:ignore rtl:end:ignore rtl:raw:.x\x7b\x7d*/.a\x7b\x7d".toList).toOption.any
      (fun sheet => ((engine { options with clean := true }).flip sheet).1.toText == ".a\x7b\x7d".toList &&
        ((engine { options with clean := false }).flip sheet).1.toText ==
          ".x\x7b\x7d/*rtl:begin:ignore rtl:end:ignore rtl:raw:.x\x7b\x7d*/.a\x7b\x7d".toList &&
        decide (((engine { options with clean := true }).flip sheet).1.size <
          ((engine { options with clean := false }).flip sheet).1.size)) = true)
  simp only [Bool.and_eq_true, decide_eq_true_eq, beq_iff_eq] at test
  obtain ⟨⟨bare, full⟩, fewer⟩ := test
  exact ⟨sheet, parsed, bare, full, fewer⟩

end StyleFlip.Standard
