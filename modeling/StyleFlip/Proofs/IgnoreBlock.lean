import StyleFlip.Proofs.Course

/-!
What a block of ignored nodes leaves alone. While such a block is the only open directive, it claims every node that is
visited, except a closing comment, and changes nothing itself (`ask_of_isIgnoreBlock`). So from the end of the comment that
opens it to the next closing comment a run only takes down which nodes it has visited (`Framed`). Main statement:
`ignored_block_keeps_run`.
-/
namespace StyleFlip.Standard
open Run (Moment Stage invocationOf)

/-- A block of ignored nodes with its handler. -/
structure IsIgnoreBlock (entry : OpenDirective State) : Prop where
  control : entry.control = some (ignore (.whole State))
  block : entry.invocation.closes = false

/-- A block claims every node but a closing comment, stays open, and leaves the run as it is. -/
theorem ask_of_isIgnoreBlock {entry : OpenDirective State} (ignores : IsIgnoreBlock entry) (node : NodeId) (kind : Kind)
    (run : Run State) :
    Run.ask node kind entry run = (run, decide (kind ≠ .root) && !closesIgnoreAt run.scene.sheet node, false) := by
  obtain ⟨control, block⟩ := ignores
  have entered : run.call (enterIgnore (.whole State) node entry.invocation) =
      (!closesIgnoreAt run.scene.sheet node, run) := by
    simp only [Run.call, enterIgnore, Invocation.opensAndCloses, block, Bool.and_false, Bool.false_eq_true, if_false]
    rfl
  by_cases inner : kind = .root
  · have other : (ignore (.whole State)).interest.accepts kind = false := by
      rw [inner]
      rfl
    rw [Run.ask_of_not_accepts (fun found live => by cases control.symm.trans live; exact other)]
    simp [inner]
  · have accepts : (ignore (.whole State)).interest.accepts kind = true := by
      cases kind with
      | root => exact absurd rfl inner
      | _ => rfl
    have asked : Run.ask node kind entry run = ((run.call (enterIgnore (.whole State) node entry.invocation)).2,
        (run.call (enterIgnore (.whole State) node entry.invocation)).1, false) :=
      Run.ask_of_block control accepts block node run
    rw [asked, entered]
    simp [inner]

/-- Where nothing is open, the last form of a comment that opens a block leaves it as the only open directive, and the
comment stays in its place. -/
theorem next_next_of_opens {options : Options} {run : Run State} {source : NodeId} {preserve consumed : Bool}
    {form : Directive.Form} {rest : List (Run.Task State)} (alone : run.stack = []) (named : form.name = "ignore".toList)
    (opens : form.opens = true) (enabled : run.scene.options.disables pluginName "ignore".toList = false) :
    Moment.next (engine options).registry
        (Moment.next (engine options).registry ⟨.obey source preserve consumed [form] :: rest, run⟩) =
      ⟨rest, { run with stack := [⟨invocationOf source preserve form, some (ignore (.whole State))⟩] }⟩ := by
  have found : (engine options).registry.lookup run.scene.options (invocationOf source preserve form).name =
      .found (ignore (.whole State)) := by
    rw [show (invocationOf source preserve form).name = "ignore".toList from named, lookup_of_enabled enabled]
    rfl
  have pushed := Run.obey_of_opens found rfl (show (invocationOf source preserve form).opens = true from opens)
  rw [alone, List.nil_append] at pushed
  have begun : Moment.next (engine options).registry ⟨.obey source preserve consumed [form] :: rest, run⟩ =
      ⟨.obey source preserve true [] :: rest,
        { run with stack := [⟨invocationOf source preserve form, some (ignore (.whole State))⟩] }⟩ := by
    simp only [Moment.next, Run.Task.step, pushed]
    rfl
  have kept : Run.stripSource { run with stack := [⟨invocationOf source preserve form, some (ignore (.whole State))⟩] } source
      preserve = { run with stack := [⟨invocationOf source preserve form, some (ignore (.whole State))⟩] } := by
    simp [Run.stripSource, invocationOf]
  rw [begun]
  simp only [Moment.next, Run.Task.step, kept]
  rfl

/-! ## Inside a block -/

/-- A run that only has more nodes behind it than the given one. -/
def Beyond (frame run : Run State) : Prop :=
  ∃ handled, frame.scene.handled ⊆ handled ∧ run = { frame with scene := { frame.scene with handled } }

theorem Beyond.marked {frame run : Run State} (beyond : Beyond frame run) (node : NodeId) : Beyond frame (run.marked node) := by
  obtain ⟨handled, grown, rfl⟩ := beyond
  exact ⟨node :: handled, fun other member => List.mem_cons_of_mem _ (grown member), rfl⟩

/-- A moment inside a block: the directive is asked about one node after the other and claims it, and nothing else happens. -/
inductive Framed (frame : Run State) (entry : OpenDirective State) : Moment State → Prop where
  | between (later : List NodeId) {run : Run State} (beyond : Beyond frame run) : Framed frame entry ⟨later.map .arrive, run⟩
  | asking {node : NodeId} (later : List NodeId) {run : Run State} (beyond : Beyond frame run)
      (silent : closesIgnoreAt frame.scene.sheet node = false) :
      Framed frame entry ⟨.ask node (frame.scene.sheet.kind node) [] false [entry] :: later.map .arrive, run⟩
  | asked {node : NodeId} (later : List NodeId) {run : Run State} (beyond : Beyond frame run) :
      Framed frame entry ⟨.ask node (frame.scene.sheet.kind node) [entry] (decide (frame.scene.sheet.kind node ≠ .root)) [] ::
        later.map .arrive, run⟩
  | root {node : NodeId} (later : List NodeId) {run : Run State} (beyond : Beyond frame run)
      (top : frame.scene.sheet.kind node = .root) : Framed frame entry ⟨.transform node :: later.map .arrive, run⟩

section
variable {frame : Run State} {entry : OpenDirective State} {moment : Moment State}

theorem Framed.beyond (framed : Framed frame entry moment) : Beyond frame moment.run := by
  cases framed <;> assumption

/-- A block goes on to the next closing comment that is not done with. -/
theorem Framed.next (ignores : IsIgnoreBlock entry) (alone : frame.stack = [entry]) (options : Options)
    (framed : Framed frame entry moment)
    (silent : ∀ node, moment.tasks.head? = some (.arrive node) → node ∉ moment.run.scene.handled →
      closesIgnoreAt frame.scene.sheet node = false) :
    Framed frame entry (moment.next (engine options).registry) := by
  cases framed with
  | @between later run beyond =>
    cases later with
    | nil => exact .between [] beyond
    | cons node others =>
      rw [List.map_cons, Run.next_arrive]
      split
      · exact .between others beyond
      · rename_i known
        obtain ⟨_, _, same⟩ := id beyond
        have row : run.stack = [entry] := (congrArg Run.stack same).trans alone
        have sheet : run.scene.sheet = frame.scene.sheet := congrArg (·.scene.sheet) same
        rw [sheet, row]
        exact .asking others (beyond.marked node) (silent node rfl known)
  | @asking node later run beyond quiet =>
    have sheet : run.scene.sheet = frame.scene.sheet := by
      obtain ⟨_, _, rfl⟩ := beyond
      rfl
    have asked : Run.ask node (frame.scene.sheet.kind node) entry run =
        (run, decide (frame.scene.sheet.kind node ≠ .root), false) := by
      rw [ask_of_isIgnoreBlock ignores, sheet, quiet]
      simp
    simp only [Moment.next, Run.Task.step, asked, Bool.false_eq_true, if_false, Bool.false_or, List.nil_append]
    exact .asked later beyond
  | @asked node later run beyond =>
    have same : { run with stack := [entry] } = run := by
      obtain ⟨_, _, rfl⟩ := beyond
      rw [← alone]
    by_cases top : frame.scene.sheet.kind node = .root
    · simp only [Moment.next, Run.Task.step, same, top, ne_eq, not_true_eq_false, decide_false, Bool.false_eq_true, if_false]
      exact .root later beyond top
    · simp only [Moment.next, Run.Task.step, same, top, ne_eq, not_false_eq_true, decide_true, if_true]
      exact .between later beyond
  | @root node later run beyond top =>
    have still : run.scene.sheet.kind node = .root := by
      obtain ⟨_, _, rfl⟩ := beyond
      exact top
    simp only [Moment.next, Run.Task.step, still]
    exact .between later beyond

end

/-! ## A whole run -/

/-- In every run of the standard engine, whatever the sheet: let the last form of a comment open a block of ignored nodes
where nothing else is open and `ignore` is not switched off. From the end of that comment on, the sheet, the options with
their string map, the counts, the warnings, the rules that wait, the open directives and what the directives keep all stay
as they are, and the run only takes down which nodes it has visited, until it visits a comment that closes the block. -/
theorem ignored_block_keeps_run (options : Options) (sheet : Sheet) {begun : Nat} {invocation : Invocation}
    (last : ((engine options).momentAt sheet begun).invocations = [invocation])
    (named : invocation.name = "ignore".toList) (opens : invocation.opens = true) (block : invocation.closes = false)
    (alone : ((engine options).momentAt sheet begun).run.stack = [])
    (enabled : ((engine options).momentAt sheet begun).run.scene.options.disables pluginName "ignore".toList = false) :
    let moment := (engine options).momentAt sheet
    let frame := (moment (begun + 2)).run
    (∃ later : List NodeId, (moment (begun + 2)).tasks = later.map .arrive) ∧
    frame = { (moment begun).run with stack := [⟨invocation, some (ignore (.whole State))⟩] } ∧
    (∀ time, begun + 2 ≤ time →
      (∀ earlier node, begun + 2 ≤ earlier → earlier < time → (moment earlier).tasks.head? = some (.arrive node) →
        node ∉ (moment earlier).run.scene.handled → closesIgnoreAt frame.scene.sheet node = false) →
      ∃ handled, frame.scene.handled ⊆ handled ∧
        (moment time).run = { frame with scene := { frame.scene with handled } }) ∧
    ∃ final, (moment final).tasks = [] ∧ ((engine options).flip sheet).1 = (moment final).run.scene.sheet ∧
      ((engine options).flip sheet).2.1 = (moment final).run.report := by
  intro moment frame
  obtain ⟨consumed, form, forms, later, same, only, here⟩ := Run.exists_obey_of_invocations last
  obtain rfl : forms = [] := List.map_eq_nil_iff.mp only.symm
  have ends : moment (begun + 2) =
      ⟨later.map .arrive, { (moment begun).run with stack := [⟨invocation, some (ignore (.whole State))⟩] }⟩ := by
    change Moment.next _ (Moment.next _ (moment begun)) = _
    rw [show moment begun = _ from here, same]
    exact next_next_of_opens alone ((congrArg Invocation.name same).symm.trans named)
      ((congrArg Invocation.opens same).symm.trans opens) enabled
  have framed : frame = { (moment begun).run with stack := [⟨invocation, some (ignore (.whole State))⟩] } :=
    congrArg Moment.run ends
  have ignores : IsIgnoreBlock ⟨invocation, some (ignore (.whole State))⟩ := ⟨rfl, block⟩
  refine ⟨⟨later, congrArg Moment.tasks ends⟩, framed, ?_, ?_⟩
  · intro time order silent
    have inside : Framed frame ⟨invocation, some (ignore (.whole State))⟩ (moment time) := by
      induction time, order using Nat.le_induction with
      | base =>
        rw [ends]
        exact .between later ⟨frame.scene.handled, List.Subset.refl _, framed.symm⟩
      | succ time order ih =>
        have before := ih fun earlier node low high => silent earlier node low (Nat.lt_succ_of_lt high)
        exact before.next ignores (congrArg Run.stack framed) options
          fun node => silent time node order (Nat.lt_succ_self time)
    exact inside.beyond
  · obtain ⟨final, ended⟩ := (engine options).exists_momentAt_eq_traverse sheet
    refine ⟨final, ?_⟩
    rw [show moment final = _ from ended]
    exact ⟨rfl, rfl, rfl⟩

/-- A `raw` and a declaration that would be flipped stand inside a block: at the closing comment nothing has happened. -/
theorem ignored_block_keeps_run_raw :
    ∃ sheet invocation, Sheet.parse "/*rtl:begin:ignore*/.a{/*rtl:raw:top:0*/left:0}/*rtl:end:ignore*/".toList = .ok sheet ∧
      let moment := (engine {}).momentAt sheet
      let frame := (moment 8).run
      (moment 6).invocations = [invocation] ∧ invocation.name = "ignore".toList ∧
      frame.stack = [⟨invocation, some (ignore (.whole State))⟩] ∧ frame.scene.handled = [1, 0] ∧
      (moment 17).tasks.head?.map Run.Task.node = some 5 ∧ closesIgnoreAt sheet 5 = true ∧
      (moment 17).run = { frame with scene := { frame.scene with handled := [4, 3, 2, 1, 0] } } := by
  obtain ⟨sheet, parsed, test⟩ := Sheet.exists_of_readable
    (by decide +kernel :
      (Sheet.parse "/*rtl:begin:ignore*/.a{/*rtl:raw:top:0*/left:0}/*rtl:end:ignore*/".toList).toOption.any (fun sheet =>
        let moment := (engine {}).momentAt sheet
        (moment 6).invocations == [Run.invocationOf 1 false ⟨"ignore".toList, [], true, false⟩] &&
          (moment 6).run.stack.isEmpty && !(moment 6).run.scene.options.disables pluginName "ignore".toList &&
          (moment 8).run.scene.handled == [1, 0] && (moment 17).run.scene.handled == [4, 3, 2, 1, 0] &&
          (moment 17).tasks.head?.map Run.Task.node == some 5 && closesIgnoreAt sheet 5 &&
          (List.range 17).all fun time => time < 8 ||
            (moment time).tasks.head?.all fun task => !closesIgnoreAt (moment 8).run.scene.sheet task.node) = true)
  simp only [Bool.and_eq_true, beq_iff_eq, List.isEmpty_iff, Bool.not_eq_eq_eq_not, Bool.not_true] at test
  obtain ⟨⟨⟨⟨⟨⟨⟨last, alone⟩, enabled⟩, before⟩, after⟩, node⟩, closes⟩, silent⟩ := test
  obtain ⟨_, framed, keeps, _⟩ := ignored_block_keeps_run {} sheet last rfl rfl rfl alone enabled
  refine ⟨sheet, _, parsed, last, rfl, congrArg Run.stack framed, before, node, closes, ?_⟩
  obtain ⟨handled, _, kept⟩ := keeps 17 (by decide) (by
    intro earlier node low high arrives _
    have tested := List.all_eq_true.mp silent earlier (List.mem_range.mpr high)
    simpa [arrives, Run.Task.node, Nat.not_lt.mpr low] using tested)
  rw [kept] at after
  rw [kept, show handled = [4, 3, 2, 1, 0] from after]

/-- Where `ignore` is switched off, the form that opens a block leaves a marker, which claims nothing: the declaration behind
it is flipped. -/
theorem flips_behind_ignore_marker :
    ∃ sheet invocation, Sheet.parse "/*rtl:begin:ignore*/.a{left:0}".toList = .ok sheet ∧
      let options : Options := { blacklist := [(pluginName, [("ignore".toList, true)])] }
      let moment := (engine options).momentAt sheet
      (moment 6).invocations = [invocation] ∧ invocation.name = "ignore".toList ∧ invocation.opens = true ∧
      invocation.closes = false ∧ (moment 6).run.stack = [] ∧
      (moment 7).run.stack.map (·.invocation) = [{ invocation with disabled := true }] ∧
      (∀ time node, time < 18 → (moment time).tasks.head? = some (.arrive node) → closesIgnoreAt sheet node = false) ∧
      (moment 8).run.flips = 0 ∧ (moment 18).run.flips = 1 ∧ (moment 18).tasks.length = 0 ∧
      (moment 18).run.scene.sheet.toText = "/*rtl:begin:ignore*/.a{right:0}".toList := by
  obtain ⟨sheet, parsed, test⟩ := Sheet.exists_of_readable
    (by decide +kernel : (Sheet.parse "/*rtl:begin:ignore*/.a{left:0}".toList).toOption.any (fun sheet =>
        let options : Options := { blacklist := [(pluginName, [("ignore".toList, true)])] }
        let moment := (engine options).momentAt sheet
        let invocation := Run.invocationOf 1 false ⟨"ignore".toList, [], true, false⟩
        (moment 6).invocations == [invocation] && (moment 6).run.stack.isEmpty &&
          (moment 7).run.stack.map (·.invocation) == [{ invocation with disabled := true }] &&
          ((List.range 18).all fun time => (moment time).tasks.head?.all fun task => !closesIgnoreAt sheet task.node) &&
          (moment 8).run.flips == 0 && (moment 18).run.flips == 1 && (moment 18).tasks.length == 0 &&
          (moment 18).run.scene.sheet.toText == "/*rtl:begin:ignore*/.a{right:0}".toList) = true)
  simp only [Bool.and_eq_true, beq_iff_eq, List.isEmpty_iff] at test
  obtain ⟨⟨⟨⟨⟨⟨⟨last, alone⟩, marker⟩, silent⟩, before⟩, after⟩, ended⟩, text⟩ := test
  refine ⟨sheet, _, parsed, last, rfl, rfl, rfl, alone, marker, ?_, before, after, ended, text⟩
  intro time node early arrives
  have tested := List.all_eq_true.mp silent time (List.mem_range.mpr early)
  rw [arrives] at tested
  simpa [Run.Task.node] using tested

end StyleFlip.Standard
