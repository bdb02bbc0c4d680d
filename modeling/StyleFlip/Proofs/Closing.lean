import StyleFlip.Proofs.Moments
import StyleFlip.Proofs.RoundTrip
import StyleFlip.Standard.Basic

/-!
How open directives are closed. From one moment of a run to the next the row of open directives stays, gets one more at
its end, or loses one (`Turn`). A directive with a handler is lost when the handler was asked to leave and agreed
(`Leaves`), or when a closing form of its name is met while that name is switched off, which drops the innermost directive
of the name whether or not it is the marker of an opening form that was switched off as well (`Drops`). The second happens
to a directive with a handler only if its name was switched off in between (`closes_by_leaving_or_dropping`).
-/
namespace StyleFlip

namespace Run
variable {σ : Type}

def disables (registry : Registry σ) (options : Options) (name : Text) : Bool :=
  match registry.lookup options name with
  | .disabled _ => true
  | _ => false

/-- Between two moments a form of a comment opens a directive, which comes to the end of the row; it is a marker without a
handler exactly if its name is switched off at that moment. -/
inductive Opens (registry : Registry σ) (before after : Moment σ) (entry : OpenDirective σ) : Prop where
  | byForm {source : NodeId} {preserve consumed : Bool} {form : Directive.Form} {forms : List Directive.Form}
      (task : before.tasks.head? = some (.obey source preserve consumed (form :: forms)))
      (named : entry.invocation.name = form.name)
      (marker : entry.control = none ↔ disables registry before.run.scene.options form.name = true)
      (row : after.run.stack = before.run.stack ++ [entry])

/-- Between two moments the handler of an open directive is asked to leave and agrees, and the directive is closed with
what the handler leaves behind. -/
inductive Leaves (registry : Registry σ) (before after : Moment σ) (entry : OpenDirective σ) : Prop where
  /-- The directive is asked about a node, and its own form also closes. -/
  | atNode {node : NodeId} {kind : Kind} {kept rest : List (OpenDirective σ)} {claimed : Bool} {control : Control σ}
      (task : before.tasks.head? = some (.ask node kind kept claimed (entry :: rest))) (live : entry.control = some control)
      (agrees : ((before.run.call (control.enter node entry.invocation)).2.call (control.leave node entry.invocation)).1 = true)
      (outcome : after.run = ((before.run.call (control.enter node entry.invocation)).2.call
        (control.leave node entry.invocation)).2.endDirective entry (kept ++ rest))
  /-- A form whose name is not switched off closes the innermost directive of its name. -/
  | byForm {source : NodeId} {preserve consumed : Bool} {form : Directive.Form} {forms : List Directive.Form}
      {front later : List (OpenDirective σ)} {control : Control σ}
      (task : before.tasks.head? = some (.obey source preserve consumed (form :: forms)))
      (enabled : disables registry before.run.scene.options form.name = false) (live : entry.control = some control)
      (innermost : lastNamed? form.name before.run.stack = some (front, entry, later))
      (agrees : (before.run.call (control.leave source (invocationOf source preserve form))).1 = true)
      (outcome : after.run =
        (before.run.call (control.leave source (invocationOf source preserve form))).2.endDirective entry (front ++ later))

/-- Between two moments a closing form whose name is switched off drops the innermost directive of its name, and no
handler is asked. -/
inductive Drops (registry : Registry σ) (before after : Moment σ) (entry : OpenDirective σ) : Prop where
  | byForm {source : NodeId} {preserve consumed : Bool} {form : Directive.Form} {forms : List Directive.Form}
      {front later : List (OpenDirective σ)}
      (task : before.tasks.head? = some (.obey source preserve consumed (form :: forms)))
      (disabled : disables registry before.run.scene.options form.name = true)
      (innermost : lastNamed? form.name before.run.stack = some (front, entry, later))
      (outcome : after.run = before.run.endDirective entry (front ++ later))

/-- The name of the form that comes next, if it only closes and its name is switched off. -/
def closingDisabled? (registry : Registry σ) (moment : Moment σ) : Option Text :=
  match moment.tasks with
  | .obey _ _ _ (form :: _) :: _ =>
    if !form.opens && form.closes && disables registry moment.run.scene.options form.name then some form.name else none
  | _ => none

/-- What may become of the row of open directives between two moments: it stays, one is opened, or one is closed. -/
inductive Turn (registry : Registry σ) (before after : Moment σ) : Prop where
  | stays (same : after.run.stack = before.run.stack)
  | opens (entry : OpenDirective σ) (opened : Opens registry before after entry)
  | closes (entry : OpenDirective σ) {front later : List (OpenDirective σ)} (row : before.run.stack = front ++ entry :: later)
      (rest : after.run.stack = front ++ later)
      (way : entry.control = none ∨ Leaves registry before after entry ∨ Drops registry before after entry)

/-! ## One step -/

section
variable {registry : Registry σ}

theorem disables_eq_true_iff {options : Options} {name : Text} :
    disables registry options name = true ↔ ∃ plugin, registry.lookup options name = .disabled plugin := by
  unfold disables
  cases registry.lookup options name <;> simp

theorem stack_stripSource (run : Run σ) (source : NodeId) (preserve : Bool) :
    (run.stripSource source preserve).stack = run.stack := by
  unfold stripSource
  split <;> rfl

theorem stack_completes (run : Run σ) (control : Control σ) (invocation : Invocation) :
    (run.completes control invocation).2.stack = run.stack := by
  unfold completes
  split
  · simp only
    split <;> rfl
  · rfl

/-- A form that is switched off warns, leaves a marker, or drops the innermost directive of its name. -/
theorem turn_passOver {source : NodeId} {preserve consumed : Bool} {form : Directive.Form} {forms : List Directive.Form}
    {run : Run σ} {plugin : Text} (found : registry.lookup run.scene.options form.name = .disabled plugin)
    (others tasks : List (Task σ)) :
    Turn registry ⟨.obey source preserve consumed (form :: forms) :: others, run⟩
      ⟨tasks, run.passOver plugin { invocationOf source preserve form with disabled := true }⟩ := by
  have disabled : disables registry run.scene.options form.name = true := disables_eq_true_iff.mpr ⟨plugin, found⟩
  unfold passOver
  simp only
  split
  · refine .opens ⟨{ invocationOf source preserve form with disabled := true }, none⟩
      (.byForm rfl rfl (by simp [disabled]) ?_)
    split <;> rfl
  · rename_i opens closes
    simp only [opens, Bool.false_eq_true, if_false]
    split
    · rename_i front entry later innermost
      exact .closes entry (mem_of_lastNamed? innermost).1 (stack_endDirective _ _ _)
        (.inr (.inr (.byForm rfl disabled innermost rfl)))
    · exact .stays rfl
  · exact .stays (by split <;> rfl)

/-- A closing form of a directive that is not switched off asks the handler of the innermost directive of its name. -/
theorem turn_obeyEnd {source : NodeId} {preserve consumed : Bool} {form : Directive.Form} {forms : List Directive.Form}
    {run : Run σ} (enabled : disables registry run.scene.options form.name = false) (others tasks : List (Task σ)) :
    Turn registry ⟨.obey source preserve consumed (form :: forms) :: others, run⟩
      ⟨tasks, run.obeyEnd (invocationOf source preserve form)⟩ := by
  simp only [obeyEnd]
  split
  · exact .stays rfl
  · rename_i front entry later innermost
    cases live : entry.control with
    | none => exact .closes entry (mem_of_lastNamed? innermost).1 (stack_endDirective _ _ _) (.inl live)
    | some control =>
      simp only
      split
      · rename_i agrees
        exact .closes entry (mem_of_lastNamed? innermost).1 (stack_endDirective _ _ _)
          (.inr (.inl (.byForm rfl enabled live innermost agrees rfl)))
      · exact .stays rfl

/-- One form of a comment opens a directive at the end of the row, closes one, or leaves the row as it is. -/
theorem turn_obey (source : NodeId) (preserve consumed : Bool) (form : Directive.Form) (forms : List Directive.Form)
    (run : Run σ) (others tasks : List (Task σ)) :
    Turn registry ⟨.obey source preserve consumed (form :: forms) :: others, run⟩
      ⟨tasks, (Run.obey registry run (invocationOf source preserve form)).2⟩ := by
  unfold Run.obey
  split
  · rename_i plugin found
    exact turn_passOver found others tasks
  · exact .stays rfl
  · rename_i control found
    have enabled : disables registry run.scene.options form.name = false := by
      simp only [invocationOf] at found
      simp only [disables, found]
    split
    · simp only
      split
      · exact .stays (stack_completes _ _ _)
      · exact .opens ⟨invocationOf source preserve form, some control⟩
          (.byForm rfl rfl (by simp [enabled]) (by simp only [stack_completes]))
    · exact turn_obeyEnd enabled others tasks

/-- An open directive that is closed at a node was entered there, and its handler agreed to leave. -/
theorem of_ask_closes {node : NodeId} {kind : Kind} {entry : OpenDirective σ} {run : Run σ}
    (closed : (Run.ask node kind entry run).2.2 = true) :
    ∃ control, entry.control = some control ∧
      let left := (run.call (control.enter node entry.invocation)).2.call (control.leave node entry.invocation)
      left.1 = true ∧ (Run.ask node kind entry run).1 = left.2 := by
  unfold Run.ask at closed ⊢
  cases live : entry.control with
  | none => simp only [live, Bool.false_eq_true] at closed
  | some control =>
    simp only [live] at closed ⊢
    by_cases accepts : control.interest.accepts kind = true
    · cases closes : entry.invocation.closes with
      | false => simp only [accepts, closes, if_true, Bool.false_eq_true, if_false] at closed
      | true =>
        simp only [accepts, closes, if_true] at closed ⊢
        exact ⟨control, rfl, closed, rfl⟩
    · simp only [accepts, Bool.false_eq_true, if_false] at closed

theorem turn_ask {node : NodeId} {kind : Kind} {kept rest : List (OpenDirective σ)} {claimed : Bool}
    {entry : OpenDirective σ} {run : Run σ} (others : List (Task σ)) (row : run.stack = kept ++ entry :: rest) :
    Turn registry ⟨.ask node kind kept claimed (entry :: rest) :: others, run⟩
      (Moment.next registry ⟨.ask node kind kept claimed (entry :: rest) :: others, run⟩) := by
  simp only [Moment.next, Task.step]
  by_cases closed : (Run.ask node kind entry run).2.2 = true
  · obtain ⟨control, live, agrees, left⟩ := of_ask_closes closed
    simp only [closed, if_true]
    exact .closes entry row (stack_endDirective _ _ _) (.inr (.inl (.atNode rfl live agrees (by rw [left]))))
  · simp only [closed, Bool.false_eq_true, if_false]
    exact .stays (stack_ask node kind entry run)

theorem stack_flipParams (run : Run σ) (node : NodeId) : (run.flipParams node).stack = run.stack := by
  unfold flipParams
  split
  · split <;> rfl
  · rfl

theorem stack_obeyMarksFrom (node : NodeId) (source : Text) (rules : List (MarkRule σ)) (run : Run σ) :
    (obeyMarksFrom node source rules run).2.stack = run.stack := by
  induction rules generalizing run with
  | nil => rfl
  | cons rule rest ih =>
    unfold obeyMarksFrom
    split
    · simp only
      split
      · split <;> rfl
      · exact ih _
    · exact ih run

theorem stack_obeyMarks (run : Run σ) (node : NodeId) : (obeyMarks registry run node).2.stack = run.stack := by
  unfold obeyMarks
  split
  · rfl
  · simp only
    split
    · exact stack_obeyMarksFrom _ _ _ _
    · rfl

theorem stack_flipByRule (run : Run σ) (node : NodeId) : (flipByRule registry run node).stack = run.stack := by
  unfold flipByRule
  split
  · rfl
  · simp only
    split
    · rfl
    · split <;> split <;> rfl

theorem stack_flipValue (run : Run σ) (node : NodeId) : (flipValue registry run node).stack = run.stack := by
  unfold flipValue
  simp only
  split
  · exact stack_obeyMarks run node
  · exact (stack_flipByRule _ node).trans (stack_obeyMarks run node)

theorem stack_renameAround (run : Run σ) (node : NodeId) : (run.renameAround node).stack = run.stack := by
  unfold renameAround
  split
  · rfl
  · split
    · rfl
    · split
      · rfl
      · split
        · unfold renameRule
          simp only
          split
          · split <;> rfl
          · split <;> rfl
        · rfl

/-- From each moment of a visit to the next, the row of open directives takes one of its turns. -/
theorem Stage.turn {node : NodeId} {rest : List (Task σ)} {moment : Moment σ} (stage : Stage node rest moment) :
    Turn registry moment (moment.next registry) := by
  cases stage with
  | @asking kept entries kind claimed run row =>
    cases entries with
    | nil => exact .stays (by simp [Moment.next, Task.step, row])
    | cons entry others => exact turn_ask rest row
  | passing run =>
    refine .stays ?_
    simp only [Moment.next, Task.step]
    split
    · split <;> rfl
    · rfl
    · exact stack_flipParams run node
    · rfl
    · rfl
  | obeying preserve consumed forms run =>
    cases forms with
    | nil =>
      refine .stays ?_
      simp only [Moment.next, Task.step]
      split
      · exact stack_stripSource run node preserve
      · rfl
    | cons form others =>
      have turned : ∀ tasks, Turn registry ⟨.obey node preserve consumed (form :: others) :: rest, run⟩
          ⟨tasks, (Run.obey registry run (invocationOf node preserve form)).2⟩ :=
        turn_obey node preserve consumed form others run rest
      simp only [Moment.next, Task.step]
      split
      · exact turned _
      · exact turned _
      · exact turned _
  | flipping run => exact .stays (stack_flipValue run node)
  | naming run => exact .stays (stack_renameAround run node)

end

/-! ## A whole run -/

section
variable {registry : Registry σ}

theorem turn_courseAt (run : Run σ) (nodes : List NodeId) (time : Nat) :
    Turn registry (courseAt registry run nodes time) (courseAt registry run nodes (time + 1)) := by
  obtain ⟨later, between | ⟨node, stage⟩⟩ := exists_stage_courseAt registry run nodes time
  · refine .stays ?_
    rw [courseAt]
    generalize courseAt registry run nodes time = moment at between ⊢
    obtain ⟨tasks, now⟩ := moment
    obtain rfl : tasks = _ := between
    cases later with
    | nil => rfl
    | cons node others =>
      simp only [List.map_cons, Moment.next, Task.step]
      split <;> rfl
  · exact stage.turn

/-- What is open was opened by an earlier step of the run. -/
theorem exists_opens_of_mem_stack {run : Run σ} (quiet : run.stack = []) {nodes : List NodeId} {time : Nat}
    {entry : OpenDirective σ} (isOpen : entry ∈ (courseAt registry run nodes time).run.stack) :
    ∃ earlier < time,
      Opens registry (courseAt registry run nodes earlier) (courseAt registry run nodes (earlier + 1)) entry := by
  induction time with
  | zero =>
    change entry ∈ run.stack at isOpen
    rw [quiet] at isOpen
    cases isOpen
  | succ time ih =>
    have before : entry ∈ (courseAt registry run nodes time).run.stack → ∃ earlier < time + 1,
        Opens registry (courseAt registry run nodes earlier) (courseAt registry run nodes (earlier + 1)) entry := by
      intro wasOpen
      obtain ⟨earlier, early, opened⟩ := ih wasOpen
      exact ⟨earlier, Nat.lt_succ_of_lt early, opened⟩
    rcases turn_courseAt run nodes time with same | ⟨latest, opened⟩ | ⟨_, row, rest, _⟩
    · exact before (same ▸ isOpen)
    · have ⟨_, _, _, added⟩ := opened
      rw [added, List.mem_append, List.mem_singleton] at isOpen
      rcases isOpen with old | rfl
      · exact before old
      · exact ⟨time, Nat.lt_succ_self time, opened⟩
    · rw [rest] at isOpen
      refine before ?_
      rw [row]
      grind

theorem not_drops_of_leaves {before after : Moment σ} {entry : OpenDirective σ} (left : Leaves registry before after entry) :
    ¬ Drops registry before after entry := by
  rintro ⟨task, disabled, _, _⟩
  rcases left with ⟨other, _, _, _⟩ | ⟨other, enabled, _, _, _⟩
  · cases task.symm.trans other
  · cases task.symm.trans other
    rw [disabled] at enabled
    cases enabled

theorem mem_stack_of_drops {before after : Moment σ} {entry : OpenDirective σ} (dropped : Drops registry before after entry) :
    entry ∈ before.run.stack ∧ disables registry before.run.scene.options entry.invocation.name = true := by
  obtain ⟨_, disabled, innermost, _⟩ := dropped
  obtain ⟨row, named⟩ := mem_of_lastNamed? innermost
  exact ⟨by simp [row], by rwa [named]⟩

/-- A directive with a handler is dropped only if its name was switched off after it was opened. -/
theorem enabled_of_drops {run : Run σ} (quiet : run.stack = []) {nodes : List NodeId} {time : Nat} {entry : OpenDirective σ}
    (dropped : Drops registry (courseAt registry run nodes time) (courseAt registry run nodes (time + 1)) entry)
    (live : entry.control ≠ none) :
    ∃ earlier < time, Opens registry (courseAt registry run nodes earlier) (courseAt registry run nodes (earlier + 1)) entry ∧
      disables registry (courseAt registry run nodes earlier).run.scene.options entry.invocation.name = false := by
  obtain ⟨earlier, before, opened⟩ := exists_opens_of_mem_stack quiet (mem_stack_of_drops dropped).1
  refine ⟨earlier, before, opened, ?_⟩
  obtain ⟨_, named, marker, _⟩ := opened
  rw [named]
  exact Bool.eq_false_iff.mpr fun disabled => live (marker.mpr disabled)

theorem forall_ne_of_lastNamed?_eq_none {name : Text} {stack : List (OpenDirective σ)} (none : lastNamed? name stack = none) :
    ∀ entry ∈ stack, entry.invocation.name ≠ name := by
  induction stack with
  | nil => simp
  | cons first rest ih =>
    unfold lastNamed? at none
    split at none
    · cases none
    · rename_i inner
      split at none
      · cases none
      · rename_i other
        simpa [other] using ih inner

theorem forall_ne_of_lastNamed? {name : Text} {stack before later : List (OpenDirective σ)} {found : OpenDirective σ}
    (innermost : lastNamed? name stack = some (before, found, later)) : ∀ entry ∈ later, entry.invocation.name ≠ name := by
  induction stack generalizing before with
  | nil => cases innermost
  | cons first rest ih =>
    unfold lastNamed? at innermost
    split at innermost
    · rename_i inner
      cases innermost
      exact ih inner
    · rename_i inner
      split at innermost
      · cases innermost
        exact forall_ne_of_lastNamed?_eq_none inner
      · cases innermost

theorem passOver_of_closes (run : Run σ) (plugin : Text) {invocation : Invocation} (opens : invocation.opens = false)
    (closes : invocation.closes = true) :
    run.passOver plugin invocation = ((lastNamed? invocation.name run.stack).map fun found =>
      run.endDirective found.2.1 (found.1 ++ found.2.2)).getD run := by
  unfold passOver
  rw [opens, closes]
  simp only [Bool.false_eq_true, if_false]
  cases lastNamed? invocation.name run.stack <;> rfl

/-- A closing form whose name is switched off drops the innermost directive of its name, if there is one, and does nothing
else. -/
theorem drops_of_closingDisabled? {moment : Moment σ} {name : Text} (closing : closingDisabled? registry moment = some name) :
    (∃ entry, Drops registry moment (moment.next registry) entry ∧ entry.invocation.name = name) ∨
      (∀ entry ∈ moment.run.stack, entry.invocation.name ≠ name) ∧ (moment.next registry).run = moment.run := by
  obtain ⟨tasks, run⟩ := moment
  unfold closingDisabled? at closing
  split at closing
  · rename_i source preserve consumed form forms others next
    obtain rfl : tasks = _ := next
    split at closing
    · rename_i shape
      cases closing
      simp only [Bool.and_eq_true, Bool.not_eq_eq_eq_not, Bool.not_true] at shape
      obtain ⟨⟨opens, closes⟩, disabled⟩ := shape
      obtain ⟨plugin, found⟩ := disables_eq_true_iff.mp disabled
      have obeyed : Run.obey registry run (invocationOf source preserve form) =
          (.taken, run.passOver plugin { invocationOf source preserve form with disabled := true }) := by
        have off : registry.lookup run.scene.options (invocationOf source preserve form).name = .disabled plugin := found
        unfold Run.obey
        rw [off]
      have next : (Moment.next registry ⟨.obey source preserve consumed (form :: forms) :: others, run⟩).run =
          ((lastNamed? form.name run.stack).map fun found => run.endDirective found.2.1 (found.1 ++ found.2.2)).getD run := by
        simp only [Moment.next, Task.step, obeyed]
        exact passOver_of_closes run plugin opens closes
      cases innermost : lastNamed? form.name run.stack with
      | none =>
        rw [innermost] at next
        exact .inr ⟨forall_ne_of_lastNamed?_eq_none innermost, next⟩
      | some found =>
        obtain ⟨front, entry, later⟩ := found
        rw [innermost] at next
        exact .inl ⟨entry, .byForm rfl disabled innermost next, (mem_of_lastNamed? innermost).2⟩
    · cases closing
  · cases closing

end

end Run

namespace Engine
open Run
variable {σ : Type}

/-- Whatever the plugins do, a directive with a handler is closed through its handler, unless a closing form drops it whose
name was switched off after the directive was opened. Such a form takes the innermost directive of its name, be it a marker
or not; a marker is what was opened while its name was switched off. -/
theorem closes_by_leaving_or_dropping (engine : Engine σ) (sheet : Sheet) :
    let moment := courseAt engine.registry (engine.start sheet)
    (∃ nodes time, (moment nodes time).tasks = [] ∧ (engine.flip sheet).2.1 = (moment nodes time).run.report) ∧
    ∀ nodes time,
      let before := moment nodes time
      let after := moment nodes (time + 1)
      Turn engine.registry before after ∧
      (∀ entry, Leaves engine.registry before after entry → ¬ Drops engine.registry before after entry) ∧
      (∀ entry ∈ before.run.stack, ∃ earlier < time,
        Opens engine.registry (moment nodes earlier) (moment nodes (earlier + 1)) entry) ∧
      (∀ entry, Drops engine.registry before after entry → entry.control ≠ none → ∃ earlier < time,
        Opens engine.registry (moment nodes earlier) (moment nodes (earlier + 1)) entry ∧
        disables engine.registry (moment nodes earlier).run.scene.options entry.invocation.name = false) ∧
      (∀ name, closingDisabled? engine.registry before = some name →
        (∃ entry, Drops engine.registry before after entry ∧ entry.invocation.name = name) ∨
          (∀ entry ∈ before.run.stack, entry.invocation.name ≠ name) ∧ after.run = before.run) := by
  intro moment
  refine ⟨?_, ?_⟩
  · obtain ⟨time, ended⟩ := engine.exists_momentAt_eq_traverse sheet
    refine ⟨engine.trail sheet, time, ?_⟩
    rw [show moment (engine.trail sheet) time = _ from ended]
    exact ⟨rfl, rfl⟩
  · intro nodes time
    have quiet : (engine.start sheet).stack = [] := rfl
    exact ⟨turn_courseAt _ nodes time, fun _ => not_drops_of_leaves, fun _ => exists_opens_of_mem_stack quiet,
      fun _ => enabled_of_drops quiet, fun _ => drops_of_closingDisabled?⟩

/-- A `rename` that is closed as it should be, and another whose closing form comes when the name is switched off. -/
theorem closes_by_leaving_or_dropping_rename :
    ∃ sheet first second earlier, Sheet.parse ("/*rtl:begin:rename*//*rtl:end:rename*//*rtl:begin:rename*/".toList ++
        "/*rtl:options:\x7b\"blacklist\":\x7b\"rtlcss\":\x7b\"rename\":true\x7d\x7d\x7d*//*rtl:end:rename*/".toList) = .ok sheet ∧
      let moment := Run.courseAt (Standard.engine {}).registry ((Standard.engine {}).start sheet) [0, 1, 2, 3, 4, 5]
      let registry := (Standard.engine {}).registry
      Leaves registry (moment 12) (moment 13) first ∧ ¬ Drops registry (moment 12) (moment 13) first ∧
      Drops registry (moment 29) (moment 30) second ∧ second.control ≠ none ∧ earlier < 29 ∧
      Opens registry (moment earlier) (moment (earlier + 1)) second ∧
      disables registry (moment earlier).run.scene.options second.invocation.name = false := by
  obtain ⟨sheet, parsed, test⟩ := Sheet.exists_of_readable
    (by decide +kernel : (Sheet.parse ("/*rtl:begin:rename*//*rtl:end:rename*//*rtl:begin:rename*/".toList ++
        "/*rtl:options:\x7b\"blacklist\":\x7b\"rtlcss\":\x7b\"rename\":true\x7d\x7d\x7d*//*rtl:end:rename*/".toList)).toOption.any
      (fun sheet =>
        let moment := Run.courseAt (Standard.engine {}).registry ((Standard.engine {}).start sheet) [0, 1, 2, 3, 4, 5]
        let registry := (Standard.engine {}).registry
        (moment 12).run.stack.length == 1 && (moment 13).run.stack.length == 0 &&
          (moment 12).run.stack.all (fun entry =>
            entry.control.isSome && !disables registry (moment 12).run.scene.options entry.invocation.name) &&
          closingDisabled? registry (moment 29) == some "rename".toList &&
          (moment 29).run.stack.any (·.invocation.name == "rename".toList) &&
          (moment 29).run.stack.all (·.control.isSome)) = true)
  simp only [Bool.and_eq_true, beq_iff_eq, List.all_eq_true, List.any_eq_true, Bool.not_eq_eq_eq_not, Bool.not_true,
    Option.isSome_iff_ne_none] at test
  obtain ⟨⟨⟨⟨⟨one, none⟩, live⟩, closing⟩, named, isOpen, same⟩, liveLater⟩ := test
  obtain ⟨_, along⟩ := closes_by_leaving_or_dropping (Standard.engine {}) sheet
  obtain ⟨turn, apart, _, _, _⟩ := along [0, 1, 2, 3, 4, 5] 12
  obtain ⟨_, _, _, since, drops⟩ := along [0, 1, 2, 3, 4, 5] 29
  obtain ⟨first, left⟩ : ∃ entry, Leaves (Standard.engine {}).registry
      (Run.courseAt (Standard.engine {}).registry ((Standard.engine {}).start sheet) [0, 1, 2, 3, 4, 5] 12)
      (Run.courseAt (Standard.engine {}).registry ((Standard.engine {}).start sheet) [0, 1, 2, 3, 4, 5] 13) entry := by
    rcases turn with stays | ⟨_, _, _, _, row⟩ | ⟨entry, row, _, way⟩
    · rw [stays, one] at none
      cases none
    · rw [row, List.length_append] at none
      cases none
    · obtain ⟨handler, enabled⟩ := live entry (by rw [row]; simp)
      rcases way with marker | left | dropped
      · exact absurd marker handler
      · exact ⟨entry, left⟩
      · rw [(mem_stack_of_drops dropped).2] at enabled
        cases enabled
  rcases drops _ closing with ⟨second, dropped, _⟩ | ⟨other, _⟩
  · have handler := liveLater second (mem_stack_of_drops dropped).1
    obtain ⟨earlier, early, opened, enabled⟩ := since second dropped handler
    exact ⟨sheet, first, second, earlier, parsed, left, apart first left, dropped, handler, early, opened, enabled⟩
  · exact absurd same (other named isOpen)

/-- The `options` in between switch `rename` off, so the closing form drops the open `rename` without asking its handler:
the selector behind it is not flipped, and nobody is told. -/
theorem drops_open_rename :
    ∃ sheet entry, Sheet.parse ("/*rtl:begin:rename*//*rtl:options:\x7b\"blacklist\":\x7b\"rtlcss\":".toList ++
        "\x7b\"rename\":true\x7d\x7d\x7d*//*rtl:end:rename*/.left\x7bcolor:red\x7d".toList) = .ok sheet ∧
      let moment := Run.courseAt (Standard.engine {}).registry ((Standard.engine {}).start sheet) [0, 1, 2, 3, 4, 5]
      let registry := (Standard.engine {}).registry
      entry ∈ (moment 18).run.stack ∧ entry.control ≠ none ∧ (moment 19).run.stack = [] ∧
      ¬ Leaves registry (moment 18) (moment 19) entry ∧
      ((Standard.engine {}).flip sheet).1.toText = ".left\x7bcolor:red\x7d".toList ∧
      ((Standard.engine {}).flip sheet).2.1 = { warnings := [], flips := 0 } := by
  obtain ⟨sheet, parsed, test⟩ := Sheet.exists_of_readable
    (by decide +kernel : (Sheet.parse ("/*rtl:begin:rename*//*rtl:options:\x7b\"blacklist\":\x7b\"rtlcss\":".toList ++
        "\x7b\"rename\":true\x7d\x7d\x7d*//*rtl:end:rename*/.left\x7bcolor:red\x7d".toList)).toOption.any
      (fun sheet =>
        let moment := Run.courseAt (Standard.engine {}).registry ((Standard.engine {}).start sheet) [0, 1, 2, 3, 4, 5]
        let registry := (Standard.engine {}).registry
        closingDisabled? registry (moment 18) == some "rename".toList &&
          (moment 18).run.stack.any (·.invocation.name == "rename".toList) &&
          (moment 18).run.stack.all (·.control.isSome) && (moment 19).run.stack.isEmpty &&
          ((Standard.engine {}).flip sheet).1.toText == ".left\x7bcolor:red\x7d".toList &&
          decide (((Standard.engine {}).flip sheet).2.1 = { warnings := [], flips := 0 })) = true)
  simp only [Bool.and_eq_true, beq_iff_eq, List.all_eq_true, List.any_eq_true, List.isEmpty_iff, decide_eq_true_eq,
    Option.isSome_iff_ne_none] at test
  obtain ⟨⟨⟨⟨⟨closing, named, isOpen, same⟩, live⟩, none⟩, text⟩, report⟩ := test
  rcases drops_of_closingDisabled? closing with ⟨entry, dropped, _⟩ | ⟨other, _⟩
  · have before := (mem_stack_of_drops dropped).1
    exact ⟨sheet, entry, parsed, before, live entry before, none, fun left => not_drops_of_leaves left dropped, text, report⟩
  · exact absurd same (other named isOpen)

end Engine
end StyleFlip
