import StyleFlip.Proofs.Rewriting

/-!
Blocks of options. A form of `options` puts other options in force, with the string map made from them, and a block goes back
to the options before it when it is closed. Three places take part: the options in force, the row of open directives and what
the directive has saved. No other step of a run touches them (`Steady`), the forms of `options` change them together
(`Shift`), and all comments that a run obeys are those of the sheet that it began with (`Sourced`). So the saved options are
those in force where the open blocks began (`exists_opened`). Main statement: `options_blocks_nest`.
-/
namespace StyleFlip

namespace Sheet

/-! ## Comments stay -/

/-- The same nodes, among them the same comments. -/
structure Retains (before after : Sheet) : Prop where
  size : after.size = before.size
  comment : ∀ n : Nat, after.comment? n = before.comment? n

theorem Retains.refl (sheet : Sheet) : Retains sheet sheet := ⟨rfl, fun _ => rfl⟩

theorem Retains.trans {first second third : Sheet} (one : Retains first second) (two : Retains second third) :
    Retains first third :=
  ⟨two.size.trans one.size, fun n => (two.comment n).trans (one.comment n)⟩

theorem Retains.remove (sheet : Sheet) (n : Nat) : Retains sheet (sheet.remove n) :=
  ⟨size_remove sheet n, fun m => by simp only [comment?, content_remove]⟩

theorem Reworded.retains {before after : Sheet} (reworded : Reworded before after) : Retains before after :=
  ⟨reworded.similar.size, reworded.comment?⟩

mutual
/-- All new nodes are listed. -/
theorem mem_appendItem (sheet : Sheet) (parent : Nat) :
    ∀ item, ∀ n : Nat, sheet.size ≤ n → n < (sheet.appendItem parent item).1.size → n ∈ (sheet.appendItem parent item).2
  | .node content spacing children, n, low, high => by
    by_cases first : n = sheet.size
    · exact List.mem_cons.mpr (.inl first)
    · have size := append_size sheet parent content spacing
      exact List.mem_cons_of_mem _
        (mem_appendItems (sheet.append parent content spacing).1 sheet.size children n (by omega) high)

theorem mem_appendItems (sheet : Sheet) (parent : Nat) :
    ∀ items, ∀ n : Nat, sheet.size ≤ n → n < (sheet.appendItems parent items).1.size → n ∈ (sheet.appendItems parent items).2
  | [], n, low, high => absurd (Nat.lt_of_lt_of_le high low) (Nat.lt_irrefl n)
  | item :: rest, n, low, high => by
    by_cases first : n < (sheet.appendItem parent item).1.size
    · exact List.mem_append_left _ (mem_appendItem sheet parent item n low first)
    · exact List.mem_append_right _ (mem_appendItems (sheet.appendItem parent item).1 parent rest n (by omega) high)
end

theorem mem_insertItemsBefore (sheet : Sheet) (c : Nat) (items : List Item) {n : Nat} (low : sheet.size ≤ n)
    (high : n < (sheet.insertItemsBefore c items).1.size) : n ∈ (sheet.insertItemsBefore c items).2 := by
  induction items generalizing sheet with
  | nil => exact absurd (Nat.lt_of_lt_of_le high low) (Nat.lt_irrefl n)
  | cons item rest ih =>
    obtain ⟨content, spacing, children⟩ := item
    rw [Sheet.insertItemsBefore] at high ⊢
    cases inserted : sheet.insertBefore? c content spacing with
    | none =>
      rw [inserted] at high
      exact absurd (Nat.lt_of_lt_of_le high low) (Nat.lt_irrefl n)
    | some found =>
      obtain ⟨middle, id⟩ := found
      rw [inserted] at high
      obtain ⟨_, rfl, size⟩ := Spread.insertBefore? inserted
      simp only [List.mem_cons, List.mem_append] at high ⊢
      by_cases first : n = sheet.size
      · exact .inl first
      · by_cases below : n < (middle.appendItems sheet.size children).1.size
        · exact .inr (.inl (mem_appendItems middle sheet.size children n (by omega) below))
        · exact .inr (.inr (ih _ (by omega) high))

theorem comment?_of_size_le {sheet : Sheet} {n : Nat} (high : sheet.size ≤ n) : sheet.comment? n = none := by
  have missing : sheet.nodes[n]? = none := Array.getElem?_eq_none high
  simp [comment?, Sheet.content, Sheet.node, missing]

end Sheet

namespace Scene

/-- The comments that were there say the same, and what has come in is done with. -/
structure Widens (before after : Scene) : Prop where
  handled : before.handled ⊆ after.handled
  size : before.sheet.size ≤ after.sheet.size
  comment : ∀ n : Nat, n < before.sheet.size → after.sheet.comment? n = before.sheet.comment? n
  fresh : ∀ n : Nat, before.sheet.size ≤ n → n < after.sheet.size → n ∈ after.handled

theorem Widens.of_retains {before after : Scene} (handled : before.handled ⊆ after.handled)
    (sheet : before.sheet.Retains after.sheet) : Widens before after where
  handled := handled
  size := Nat.le_of_eq sheet.size.symm
  comment := fun n _ => sheet.comment n
  fresh := fun n low high => absurd (Nat.lt_of_lt_of_le (sheet.size ▸ high) low) (Nat.lt_irrefl n)

theorem Widens.trans {first second third : Scene} (one : Widens first second) (two : Widens second third) :
    Widens first third where
  handled := List.Subset.trans one.handled two.handled
  size := Nat.le_trans one.size two.size
  comment := fun n low => (two.comment n (Nat.lt_of_lt_of_le low one.size)).trans (one.comment n low)
  fresh := by
    intro n low high
    by_cases early : n < second.sheet.size
    · exact two.handled (one.fresh n low early)
    · exact two.fresh n (Nat.le_of_not_lt early) high

end Scene

namespace Standard
open Run (Moment Stage invocationOf)

/-! ## Steps that leave options alone -/

/-- Whether an open directive is a block of options. -/
def isOptions (entry : OpenDirective State) : Bool := entry.invocation.name == "options".toList

/-- The open blocks of options, outermost first. -/
def blocks (run : Run State) : List (OpenDirective State) := run.stack.filter isOptions

/-- Nothing comes in, is opened or closed, and the options stay with what is saved of them. -/
structure Calm (before after : Run State) : Prop where
  options : after.scene.options = before.scene.options
  map : after.scene.map = before.scene.map
  saved : after.store.saved = before.store.saved
  stack : after.stack = before.stack
  handled : before.scene.handled ⊆ after.scene.handled
  sheet : before.scene.sheet.Retains after.scene.sheet

/-- The options stay with what is saved of them and with their blocks. What comes in meanwhile is done with, and what is
opened is a directive of the standard plugin. -/
structure Steady (before after : Run State) : Prop where
  options : after.scene.options = before.scene.options
  map : after.scene.map = before.scene.map
  saved : after.store.saved = before.store.saved
  blocks : blocks after = blocks before
  known : ∀ entry ∈ after.stack, entry ∈ before.stack ∨ Genuine entry
  scene : before.scene.Widens after.scene

section
variable {run first second third : Run State}

theorem Calm.refl (run : Run State) : Calm run run := ⟨rfl, rfl, rfl, rfl, List.Subset.refl _, .refl _⟩

theorem Calm.trans (one : Calm first second) (two : Calm second third) : Calm first third where
  options := two.options.trans one.options
  map := two.map.trans one.map
  saved := two.saved.trans one.saved
  stack := two.stack.trans one.stack
  handled := List.Subset.trans one.handled two.handled
  sheet := one.sheet.trans two.sheet

theorem Calm.setSheet {sheet : Sheet} (retained : run.scene.sheet.Retains sheet) : Calm run (run.setSheet sheet) :=
  ⟨rfl, rfl, rfl, rfl, List.Subset.refl _, retained⟩

theorem Calm.warn (run : Run State) (kind : WarningKind) (node : NodeId) (message : Text) :
    Calm run (run.warn kind node message) :=
  ⟨rfl, rfl, rfl, rfl, List.Subset.refl _, .refl _⟩

/-- What is counted and which rules wait makes no difference. -/
theorem Calm.recount (calm : Calm first second) (pending : List (Text × NodeId)) (flipped flips : Nat) :
    Calm first { second with pending := pending, flipped := flipped, flips := flips } :=
  { calm with }

theorem Calm.steady (calm : Calm first second) : Steady first second where
  options := calm.options
  map := calm.map
  saved := calm.saved
  blocks := by rw [Standard.blocks, Standard.blocks, calm.stack]
  known := fun entry member => .inl (calm.stack ▸ member)
  scene := .of_retains calm.handled calm.sheet

theorem Steady.trans (one : Steady first second) (two : Steady second third) : Steady first third where
  options := two.options.trans one.options
  map := two.map.trans one.map
  saved := two.saved.trans one.saved
  blocks := two.blocks.trans one.blocks
  known := by
    intro entry member
    rcases two.known entry member with old | new
    · exact one.known entry old
    · exact .inr new
  scene := one.scene.trans two.scene

/-- Directives other than blocks of options may open and close. -/
theorem Steady.setStack {stack : List (OpenDirective State)} (same : stack.filter isOptions = run.stack.filter isOptions)
    (known : ∀ entry ∈ stack, entry ∈ run.stack ∨ Genuine entry) : Steady run { run with stack := stack } :=
  { (Calm.refl run).steady with blocks := same, known := known }

theorem Calm.stripSource (run : Run State) (source : NodeId) (preserve : Bool) : Calm run (run.stripSource source preserve) := by
  unfold Run.stripSource
  split
  · exact .refl run
  · exact .setSheet (.remove _ _)

theorem Steady.endDirective {entry : OpenDirective State} {front later : List (OpenDirective State)}
    (row : run.stack = front ++ entry :: later) (other : isOptions entry = false) :
    Steady run (run.endDirective entry (front ++ later)) := by
  refine Steady.trans (.setStack ?_ ?_) (Calm.stripSource _ _ _).steady
  · simp [row, other]
  · intro member among
    rw [row]
    grind

/-! ## Handlers -/

theorem accepts_of_named_options {control : Control State} (member : control ∈ (plugin (.whole State)).controls)
    (named : control.name = "options".toList) (kind : Kind) : control.interest.accepts kind = false := by
  obtain rfl | rfl | rfl | rfl | rfl := control_cases member
  · exact absurd named (by decide)
  · exact absurd named (by decide)
  · exact absurd named (by decide)
  · rfl
  · rfl

/-- A directive that is asked about nodes may rename or cut off the node. -/
theorem calm_enter {control : Control State} (member : control ∈ (plugin (.whole State)).controls)
    (asked : control.interest.isSelfClosing = false) (node : NodeId) (invocation : Invocation) (run : Run State) :
    Calm run (run.call (control.enter node invocation)).2 := by
  obtain rfl | rfl | rfl | rfl | rfl := control_cases member
  · change Calm run (run.call (enterIgnore (.whole State) node invocation)).2
    refine { Calm.refl run with saved := ?_ }
    simp only [Run.call, enterIgnore]
    split <;> rfl
  · change Calm run (run.call (enterRename node invocation)).2
    simp only [Run.call, enterRename]
    split
    · exact .setSheet (Sheet.Reworded.setSelector _ _ _).retains
    · exact .refl run
  · exact .setSheet (.remove _ _)
  · cases asked
  · cases asked

theorem calm_leave {control : Control State} (member : control ∈ (plugin (.whole State)).controls)
    (other : control.name ≠ "options".toList) (node : NodeId) (invocation : Invocation) (run : Run State) :
    Calm run (run.call (control.leave node invocation)).2 := by
  obtain rfl | rfl | rfl | rfl | rfl := control_cases member
  · change Calm run (run.call (leaveIgnore (.whole State) node invocation)).2
    simp only [Run.call, leaveIgnore]
    split
    · exact { Calm.refl run with }
    · exact .refl run
  · exact .refl run
  · exact .refl run
  · exact .refl run
  · exact absurd rfl other

/-- A block of options is not asked about nodes. -/
theorem ask_of_isOptions {entry : OpenDirective State} (genuine : Genuine entry) (named : isOptions entry = true) (node : NodeId)
    (kind : Kind) (run : Run State) : Run.ask node kind entry run = (run, false, false) := by
  refine Run.ask_of_not_accepts ?_ node run
  intro control live
  obtain ⟨member, same⟩ := genuine.control control live
  exact accepts_of_named_options member (same.trans (by simpa [isOptions] using named)) kind

theorem calm_ask {entry : OpenDirective State} (genuine : Genuine entry) (node : NodeId) (kind : Kind) (run : Run State) :
    Calm run (Run.ask node kind entry run).1 := by
  cases named : isOptions entry with
  | true =>
    rw [ask_of_isOptions genuine named]
    exact .refl run
  | false =>
    unfold Run.ask
    split
    · exact .refl run
    · rename_i control live
      obtain ⟨member, same⟩ := genuine.control control live
      have other : control.name ≠ "options".toList := by
        rw [same]
        simpa [isOptions] using named
      by_cases accepts : control.interest.accepts kind = true
      · have asked : control.interest.isSelfClosing = false := by
          cases interest : control.interest with
          | kinds _ => rfl
          | itself =>
            rw [interest] at accepts
            cases accepts
        have entered := calm_enter member asked node entry.invocation run
        simp only [accepts, if_true]
        split
        · exact entered.trans (calm_leave member other node entry.invocation _)
        · exact entered
      · simp only [accepts, Bool.false_eq_true, if_false]
        exact .refl run

/-- `raw` brings nodes in, all of which are done with. -/
theorem steady_enterRaw (node : NodeId) (invocation : Invocation) (run : Run State) :
    Steady run (run.call (enterRaw node invocation)).2 := by
  obtain ⟨fragment, handled, _, listed, same⟩ | ⟨_, _, _, same⟩ := enterRaw_cases node invocation run.store run.scene <;>
    simp only [Run.call, same]
  · have spread := Sheet.Spread.insertItemsBefore run.scene.sheet node (fragment.item Sheet.root).children
    refine { (Calm.refl run).steady with scene := ⟨fun n old => (listed n).mpr (.inl old), spread.size, ?_, ?_⟩ }
    · intro n low
      simp only [Sheet.comment?, spread.content n low, Sheet.insertSheetBefore]
    · intro n low high
      exact (listed n).mpr (.inr (Sheet.mem_insertItemsBefore run.scene.sheet node (fragment.item Sheet.root).children low high))
  · exact (Calm.warn run _ _ _).steady

/-! ## Forms -/

theorem Steady.push {entry : OpenDirective State} (genuine : Genuine entry) (other : isOptions entry = false) (run : Run State) :
    Steady run { run with stack := run.stack ++ [entry] } := by
  refine .setStack (by simp [other]) ?_
  intro known member
  rcases List.mem_append.mp member with old | new
  · exact .inl old
  · exact .inr (List.mem_singleton.mp new ▸ genuine)

theorem isOptions_of_lastNamed? {name : Text} {stack front later : List (OpenDirective State)} {entry : OpenDirective State}
    (found : Run.lastNamed? name stack = some (front, entry, later)) (other : name ≠ "options".toList) :
    isOptions entry = false := by
  have named := (Run.mem_of_lastNamed? found).2
  simpa [isOptions, named] using other

theorem steady_passOver {invocation : Invocation} (other : invocation.name ≠ "options".toList) (name : Text) (run : Run State) :
    Steady run (run.passOver name invocation) := by
  have foreign : isOptions ⟨invocation, none⟩ = false := by simpa [isOptions] using other
  unfold Run.passOver
  cases opens : invocation.opens with
  | true =>
    have warned := (Calm.warn run .disabled invocation.source
      ("directive \"".toList ++ name ++ '.' :: (invocation.name ++ "\" is blacklisted.".toList))).steady
    cases invocation.closes with
    | true => exact warned
    | false => exact warned.trans (.push ⟨opens, fun _ none => by cases none⟩ foreign _)
  | false =>
    cases invocation.closes with
    | false => exact (Calm.refl run).steady
    | true =>
      simp only [Bool.false_eq_true, if_false]
      split
      · rename_i found
        exact .endDirective (Run.mem_of_lastNamed? found).1 (isOptions_of_lastNamed? found other)
      · exact (Calm.refl run).steady

theorem steady_obeyEnd {invocation : Invocation} (other : invocation.name ≠ "options".toList) {run : Run State}
    (genuine : ∀ entry ∈ run.stack, Genuine entry) : Steady run (run.obeyEnd invocation) := by
  unfold Run.obeyEnd
  split
  · exact (Calm.warn run _ _ _).steady
  · rename_i front entry later found
    obtain ⟨row, named⟩ := Run.mem_of_lastNamed? found
    have foreign := isOptions_of_lastNamed? found other
    cases live : entry.control with
    | none => exact .endDirective row foreign
    | some control =>
      obtain ⟨member, same⟩ := (genuine entry (by rw [row]; simp)).control control live
      have left := calm_leave member (by rw [same, named]; exact other) invocation.source invocation run
      simp only
      split
      · exact left.steady.trans (.endDirective (left.stack.trans row) foreign)
      · exact left.steady

theorem steady_completes {control : Control State} (member : control ∈ (plugin (.whole State)).controls)
    (other : control.name ≠ "options".toList) (invocation : Invocation) (run : Run State) :
    Steady run (run.completes control invocation).2 := by
  unfold Run.completes
  split
  · rename_i itself
    have entered : Steady run (run.call (control.enter invocation.source invocation)).2 := by
      obtain rfl | rfl | rfl | rfl | rfl := control_cases member
      · cases itself
      · cases itself
      · cases itself
      · exact steady_enterRaw _ _ _
      · exact absurd rfl other
    simp only
    split
    · exact entered.trans (calm_leave member other _ _ _).steady
    · exact entered
  · exact (Calm.refl run).steady

/-- A form of another directive leaves options alone. -/
theorem steady_obey {invocation : Invocation} (other : invocation.name ≠ "options".toList) {run : Run State}
    (genuine : ∀ entry ∈ run.stack, Genuine entry) (options : Options) :
    Steady run (Run.obey (engine options).registry run invocation).2 := by
  unfold Run.obey
  split
  · refine steady_passOver ?_ _ run
    exact other
  · exact (Calm.warn run _ _ _).steady
  · rename_i control found
    obtain ⟨member, same⟩ := of_lookup_eq_found found
    cases opens : invocation.opens with
    | true =>
      have completed := steady_completes member (by rw [same]; exact other) invocation run
      simp only [if_true]
      split
      · exact completed
      · refine completed.trans (.push ⟨opens, ?_⟩ (by simpa [isOptions] using other) _)
        rintro _ ⟨⟩
        exact ⟨member, same⟩
    | false => exact steady_obeyEnd other genuine

/-! ## Declarations and params -/

theorem calm_of_rewritten (rewritten : run.Rewritten second) : Calm run second := by
  obtain ⟨sheet, pending, flipped, flips, reworded, rfl⟩ := rewritten
  exact (Calm.setSheet reworded.retains).recount _ _ _

end

/-! ## Forms of `options` -/

theorem fault?_of_ofText {format : Format} {text : Text} {options : Options} (read : Options.ofText format text = .ok options) :
    options.fault? = none := by
  unfold Options.ofText at read
  split at read
  · cases read
  · split at read
    · cases read
    · cases read
      assumption

/-- The scene with the options of an argument in force; an argument that describes none is warned about. -/
def replaced (scene : Scene) (invocation : Invocation) : Scene :=
  match Options.ofText .json invocation.argument with
  | .ok options => { scene with options, map := options.map }
  | .error _ => warnOptions scene invocation.source

def setSaved (run : Run State) (saved : List Options) : Run State := { run with store := { run.store with saved } }

theorem call_enter_options (run : Run State) (invocation : Invocation) :
    run.call ((options (.whole State)).enter invocation.source invocation) =
      (true, { setSaved run (run.scene.options :: run.store.saved) with scene := replaced run.scene invocation }) := by
  change run.call (enterOptions (.whole State) invocation.source invocation) = _
  simp only [Run.call, enterOptions, replaced]
  cases read : Options.ofText .json invocation.argument with
  | error => rfl
  | ok options =>
    simp only [Scene.adopt?, fault?_of_ofText read]
    rfl

section
variable {run : Run State} {invocation : Invocation}

theorem lookup_options (options : Options) (enabled : run.scene.options.disables pluginName "options".toList = false)
    (named : invocation.name = "options".toList) :
    (engine options).registry.lookup run.scene.options invocation.name = .found (Standard.options (.whole State)) := by
  rw [named, lookup_of_enabled enabled]
  rfl

theorem isSelfClosing_options : (Standard.options (.whole State)).interest.isSelfClosing = true := rfl

/-- A form that opens and closes replaces the options for good. -/
theorem obey_options_once (options : Options) (enabled : run.scene.options.disables pluginName "options".toList = false)
    (named : invocation.name = "options".toList) (opens : invocation.opens = true) (closes : invocation.closes = true) :
    Run.obey (engine options).registry run invocation = (.final, { run with scene := replaced run.scene invocation }) := by
  have completed : run.completes (Standard.options (.whole State)) invocation =
      (true, { run with scene := replaced run.scene invocation }) := by
    simp only [Run.completes, isSelfClosing_options, if_true, call_enter_options, closes, Bool.and_self]
    change Run.call _ (leaveOptions (.whole State) invocation.source invocation) = _
    simp only [Run.call, leaveOptions, setSaved, Slot.whole, opens, id, if_true]
  simp only [Run.obey, lookup_options options enabled named, opens, if_true, completed]

/-- A form that opens a block saves the options and replaces them. -/
theorem obey_options_begin (options : Options) (enabled : run.scene.options.disables pluginName "options".toList = false)
    (named : invocation.name = "options".toList) (opens : invocation.opens = true) (closes : invocation.closes = false) :
    Run.obey (engine options).registry run invocation =
      (.taken, { setSaved run (run.scene.options :: run.store.saved) with
        scene := replaced run.scene invocation
        stack := run.stack ++ [⟨invocation, some (Standard.options (.whole State))⟩] }) := by
  have completed : run.completes (Standard.options (.whole State)) invocation =
      (false, { setSaved run (run.scene.options :: run.store.saved) with scene := replaced run.scene invocation }) := by
    simp only [Run.completes, isSelfClosing_options, if_true, call_enter_options, closes, Bool.and_false, Bool.false_eq_true, if_false]
  simp only [Run.obey, lookup_options options enabled named, opens, if_true, completed, Bool.false_eq_true, if_false, setSaved]

/-- A form that closes goes back to the saved options. -/
theorem obey_options_end (options : Options) (enabled : run.scene.options.disables pluginName "options".toList = false)
    (named : invocation.name = "options".toList) (opens : invocation.opens = false)
    {front later : List (OpenDirective State)} {entry : OpenDirective State}
    (innermost : Run.lastNamed? "options".toList run.stack = some (front, entry, later))
    (live : entry.control = some (Standard.options (.whole State))) {inner : Options} {outer : List Options}
    (saved : run.store.saved = inner :: outer) (valid : inner.fault? = none) :
    Run.obey (engine options).registry run invocation =
      (.final, Run.endDirective { setSaved run outer with
        scene := { run.scene with options := inner, map := inner.map } } entry (front ++ later)) := by
  have left : run.call ((Standard.options (.whole State)).leave invocation.source invocation) =
      (true, { setSaved run outer with scene := { run.scene with options := inner, map := inner.map } }) := by
    change run.call (leaveOptions (.whole State) invocation.source invocation) = _
    simp only [Run.call, leaveOptions, Slot.whole, id, saved, opens, Bool.false_eq_true, if_false, Scene.adopt?, valid]
    rfl
  have ended : run.obeyEnd invocation = Run.endDirective { setSaved run outer with
        scene := { run.scene with options := inner, map := inner.map } } entry (front ++ later) := by
    unfold Run.obeyEnd
    rw [named, innermost]
    simp only [live, left, if_true]
  simp only [Run.obey, lookup_options options enabled named, opens, Bool.false_eq_true, if_false, ended]

end

/-! ## What stays together -/

/-- Valid options are in force, with their string map, and they do not switch `options` off. -/
structure InForce (scene : Scene) : Prop where
  valid : scene.options.fault? = none
  enabled : scene.options.disables pluginName "options".toList = false
  map : scene.map = scene.options.map

/-- The options in force and those that are saved are in order, and there is one saved for each open block. -/
structure Aligned (run : Run State) : Prop where
  inForce : InForce run.scene
  saved : ∀ options ∈ run.store.saved, options.fault? = none ∧ options.disables pluginName "options".toList = false
  counted : run.store.saved.length = (blocks run).length
  live : ∀ entry ∈ blocks run, entry.control = some (options (.whole State)) ∧
    entry.invocation.opens = true ∧ entry.invocation.closes = false
  genuine : ∀ entry ∈ run.stack, Genuine entry

/-- What may become of the open blocks between two moments: they stay, one is opened and the options in force are saved, or the
innermost one is closed and the options saved last are in force again. -/
inductive Shift (before after : Moment State) : Prop where
  | stays (same : blocks after.run = blocks before.run) (saved : after.run.store.saved = before.run.store.saved)
  | opens (entry : OpenDirective State) (form : before.invocations.head? = some entry.invocation)
      (row : blocks after.run = blocks before.run ++ [entry])
      (saved : after.run.store.saved = before.run.scene.options :: before.run.store.saved)
  | closes (entry : OpenDirective State) (row : blocks before.run = blocks after.run ++ [entry])
      (saved : before.run.store.saved = after.run.scene.options :: after.run.store.saved)

section
variable {run : Run State} {invocation : Invocation}

theorem Aligned.of_steady {after : Run State} (aligned : Aligned run) (steady : Steady run after) : Aligned after where
  inForce := by
    obtain ⟨valid, enabled, map⟩ := aligned.inForce
    exact ⟨steady.options ▸ valid, steady.options ▸ enabled, by rw [steady.map, steady.options, map]⟩
  saved := steady.saved ▸ aligned.saved
  counted := by rw [steady.saved, steady.blocks, aligned.counted]
  live := steady.blocks ▸ aligned.live
  genuine := by
    intro entry member
    rcases steady.known entry member with old | new
    · exact aligned.genuine entry old
    · exact new

theorem InForce.replaced {scene : Scene} (inForce : InForce scene)
    (harmless : ∀ options, Options.ofText .json invocation.argument = .ok options →
      options.disables pluginName "options".toList = false) : InForce (replaced scene invocation) := by
  unfold Standard.replaced
  cases read : Options.ofText .json invocation.argument with
  | ok options => exact ⟨fault?_of_ofText read, harmless options read, rfl⟩
  | error => exact { inForce with }

theorem widens_replaced (scene : Scene) (invocation : Invocation) : scene.Widens (replaced scene invocation) := by
  unfold replaced
  split <;> exact .of_retains (List.Subset.refl _) (.refl _)

theorem filter_isOptions_of_lastNamed? {stack front later : List (OpenDirective State)} {entry : OpenDirective State}
    (innermost : Run.lastNamed? "options".toList stack = some (front, entry, later)) :
    stack.filter isOptions = front.filter isOptions ++ [entry] ∧ (front ++ later).filter isOptions = front.filter isOptions := by
  obtain ⟨row, named⟩ := Run.mem_of_lastNamed? innermost
  have none : later.filter isOptions = [] := by
    refine List.filter_eq_nil_iff.mpr fun other member => ?_
    simpa [isOptions] using Run.forall_ne_of_lastNamed? innermost other member
  have own : isOptions entry = true := by simp [isOptions, named]
  simp [row, none, own]

/-- The innermost block is closed: it has a handler, and the options saved last are those that it saved. -/
theorem Aligned.exists_saved (aligned : Aligned run) {front later : List (OpenDirective State)} {entry : OpenDirective State}
    (innermost : Run.lastNamed? "options".toList run.stack = some (front, entry, later)) :
    entry.control = some (options (.whole State)) ∧ ∃ inner outer, run.store.saved = inner :: outer ∧ inner.fault? = none ∧
      inner.disables pluginName "options".toList = false ∧ outer.length = (front.filter isOptions).length := by
  have row : blocks run = front.filter isOptions ++ [entry] := (filter_isOptions_of_lastNamed? innermost).1
  refine ⟨(aligned.live entry (by simp [row])).1, ?_⟩
  have counted := aligned.counted
  rw [row, List.length_append, List.length_singleton] at counted
  cases saved : run.store.saved with
  | nil => simp [saved] at counted
  | cons inner outer =>
    obtain ⟨valid, enabled⟩ := aligned.saved inner (by simp [saved])
    exact ⟨inner, outer, rfl, valid, enabled, by simpa [saved] using counted⟩

end

section
variable {run : Run State} {invocation : Invocation} {before after : Moment State} (aligned : Aligned run) (options : Options)
  (named : invocation.name = "options".toList) (begun : before.run = run)
  (obeyed : after.run = (Run.obey (engine options).registry run invocation).2)
include aligned options named begun obeyed

/-- A form that opens and closes leaves the blocks alone. -/
theorem Aligned.obey_once (opens : invocation.opens = true) (closes : invocation.closes = true)
    (inForce : InForce (replaced run.scene invocation)) :
    Aligned after.run ∧ Shift before after ∧ run.scene.Widens after.run.scene := by
  rw [obey_options_once options aligned.inForce.enabled named opens closes] at obeyed
  rw [obeyed]
  refine ⟨{ aligned with inForce := inForce }, .stays ?_ ?_, widens_replaced run.scene invocation⟩
  · rw [obeyed, begun]
    rfl
  · rw [obeyed, begun]

/-- A form that opens a block saves the options in force. -/
theorem Aligned.obey_begin (form : before.invocations.head? = some invocation) (opens : invocation.opens = true)
    (closes : invocation.closes = false) (inForce : InForce (replaced run.scene invocation)) :
    Aligned after.run ∧ Shift before after ∧ run.scene.Widens after.run.scene := by
  have enabled := aligned.inForce.enabled
  rw [obey_options_begin options enabled named opens closes] at obeyed
  have own : isOptions ⟨invocation, some (Standard.options (.whole State))⟩ = true := by simp [isOptions, named]
  have row : blocks after.run = blocks run ++ [⟨invocation, some (Standard.options (.whole State))⟩] := by
    rw [obeyed]
    simp [blocks, own]
  refine ⟨⟨?_, ?_, ?_, ?_, ?_⟩, .opens ⟨invocation, some (Standard.options (.whole State))⟩ form ?_ ?_, ?_⟩
  · rw [obeyed]
    exact inForce
  · rw [obeyed]
    intro other member
    rcases List.mem_cons.mp member with rfl | old
    · exact ⟨aligned.inForce.valid, enabled⟩
    · exact aligned.saved other old
  · rw [row, obeyed, List.length_append, ← aligned.counted]
    rfl
  · rw [row]
    intro entry member
    rcases List.mem_append.mp member with old | new
    · exact aligned.live entry old
    · rw [List.mem_singleton.mp new]
      exact ⟨rfl, opens, closes⟩
  · rw [obeyed]
    intro entry member
    rcases List.mem_append.mp member with old | new
    · exact aligned.genuine entry old
    · rw [List.mem_singleton.mp new]
      refine ⟨opens, ?_⟩
      rintro _ ⟨⟩
      exact ⟨by simp [plugin], named.symm⟩
  · rw [row, begun]
  · rw [obeyed, begun]
    rfl
  · rw [obeyed]
    exact widens_replaced run.scene invocation

/-- A form that closes where no block is open is only warned about. -/
theorem Aligned.obey_stray (opens : invocation.opens = false) (none : Run.lastNamed? "options".toList run.stack = none) :
    Aligned after.run ∧ Shift before after ∧ run.scene.Widens after.run.scene := by
  have stray : Steady run after.run := by
    have ended : after.run = run.obeyEnd invocation := by
      rw [obeyed]
      simp only [Run.obey, lookup_options options aligned.inForce.enabled named, opens, Bool.false_eq_true, if_false]
    rw [ended, Run.obeyEnd, named, none]
    exact (Calm.warn run _ _ _).steady
  exact ⟨aligned.of_steady stray, .stays (by rw [begun]; exact stray.blocks) (by rw [begun]; exact stray.saved), stray.scene⟩

/-- A form that closes the innermost block takes back what the block had saved. -/
theorem Aligned.obey_end (opens : invocation.opens = false) {front later : List (OpenDirective State)} {entry : OpenDirective State}
    (innermost : Run.lastNamed? "options".toList run.stack = some (front, entry, later)) :
    Aligned after.run ∧ Shift before after ∧ run.scene.Widens after.run.scene := by
  obtain ⟨live, inner, outer, saved, valid, stillEnabled, counted⟩ := aligned.exists_saved innermost
  obtain ⟨rowBefore, rowAfter⟩ := filter_isOptions_of_lastNamed? innermost
  rw [obey_options_end options aligned.inForce.enabled named opens innermost live saved valid] at obeyed
  -- Closing the block and stripping its comment happen to the run that has gone back to the saved options.
  have closed : Calm { setSaved run outer with
      scene := { run.scene with options := inner, map := inner.map }, stack := front ++ later } after.run := by
    rw [obeyed]
    exact Calm.stripSource _ _ _
  have row : blocks after.run = front.filter isOptions := by
    rw [blocks, closed.stack]
    exact rowAfter
  refine ⟨⟨⟨?_, ?_, ?_⟩, ?_, ?_, ?_, ?_⟩, .closes entry ?_ ?_, ?_⟩
  · rw [closed.options]
    exact valid
  · rw [closed.options]
    exact stillEnabled
  · rw [closed.options, closed.map]
  · rw [closed.saved]
    intro other member
    exact aligned.saved other (saved ▸ List.mem_cons_of_mem _ member)
  · rw [closed.saved, row]
    exact counted
  · rw [row]
    intro other member
    exact aligned.live other (by rw [blocks, rowBefore]; exact List.mem_append_left _ member)
  · rw [closed.stack]
    intro other member
    refine aligned.genuine other ?_
    rw [(Run.mem_of_lastNamed? innermost).1]
    exact ((List.Sublist.refl front).append (List.sublist_cons_self entry later)).subset member
  · rw [begun, row]
    exact rowBefore
  · rw [begun, closed.options, closed.saved]
    exact saved
  · exact .of_retains closed.handled closed.sheet

/-- A form of `options` changes the options in force, the saved ones and the open blocks together. -/
theorem Aligned.obey (form : before.invocations.head? = some invocation)
    (harmless : invocation.opens = true → ∀ replacing, Options.ofText .json invocation.argument = .ok replacing →
      replacing.disables pluginName "options".toList = false) :
    Aligned after.run ∧ Shift before after ∧ run.scene.Widens after.run.scene := by
  cases opens : invocation.opens with
  | true =>
    have inForce := aligned.inForce.replaced (harmless opens)
    cases closes : invocation.closes with
    | true => exact aligned.obey_once options named begun obeyed opens closes inForce
    | false => exact aligned.obey_begin options named begun obeyed form opens closes inForce
  | false =>
    cases innermost : Run.lastNamed? "options".toList run.stack with
    | none => exact aligned.obey_stray options named begun obeyed opens innermost
    | some found => exact aligned.obey_end options named begun obeyed opens innermost

end

/-! ## From one moment to the next -/

/-- A task finds the comment at its node as it was at first. -/
def Reads (sheet : Sheet) (run : Run State) : Run.Task State → Prop
  | .ask node _ _ _ _ => run.scene.sheet.comment? node = sheet.comment? node
  | .transform node => run.scene.sheet.comment? node = sheet.comment? node
  | .obey source _ _ forms => forms ⊆ formsAt sheet source
  | _ => True

/-- A moment of a run on a sheet: the comments of the sheet are as they were, what has come in is done with, and what is
obeyed next is a form of the sheet. -/
structure Sourced (sheet : Sheet) (moment : Moment State) : Prop where
  size : sheet.size ≤ moment.run.scene.sheet.size
  comment : ∀ n : Nat, n < sheet.size → moment.run.scene.sheet.comment? n = sheet.comment? n
  fresh : ∀ n : Nat, sheet.size ≤ n → n < moment.run.scene.sheet.size → n ∈ moment.run.scene.handled
  reads : ∀ task, moment.tasks.head? = some task → Reads sheet moment.run task

/-- What a step comes to: what belongs together is in order again, and the forms ahead are still those of the sheet. -/
structure Onward (sheet : Sheet) (before after : Moment State) : Prop where
  aligned : Aligned after.run
  shift : Shift before after
  sourced : Sourced sheet after

/-- No form of `options` in the sheet describes options that switch `options` off. -/
def KeepsOptions (sheet : Sheet) : Prop :=
  ∀ node, ∀ form ∈ formsAt sheet node, form.name = "options".toList → form.opens = true →
    ∀ options, Options.ofText .json form.argument = .ok options → options.disables pluginName "options".toList = false

theorem formsAt_of_size_le {sheet : Sheet} {node : Nat} (high : sheet.size ≤ node) : formsAt sheet node = [] := by
  rw [formsAt, Sheet.comment?_of_size_le high]
  rfl

instance (sheet : Sheet) : Decidable (KeepsOptions sheet) :=
  decidable_of_iff (∀ node ∈ List.range sheet.size, ∀ form ∈ formsAt sheet node, form.name = "options".toList →
      form.opens = true → ∀ options ∈ (Options.ofText .json form.argument).toOption,
        options.disables pluginName "options".toList = false) <| by
    have read : ∀ argument options, options ∈ (Options.ofText .json argument).toOption ↔
        Options.ofText .json argument = .ok options := by
      intro argument options
      cases Options.ofText .json argument <;> simp [Except.toOption]
    simp only [read]
    constructor
    · intro known node form listed
      by_cases low : node < sheet.size
      · exact known node (List.mem_range.mpr low) form listed
      · rw [formsAt_of_size_le (Nat.le_of_not_lt low)] at listed
        cases listed
    · intro keeps node _
      exact keeps node

section
variable {sheet : Sheet} {node : NodeId} {later : List NodeId} {before after : Moment State}

theorem Sourced.widen (sourced : Sourced sheet before) (widens : before.run.scene.Widens after.run.scene)
    (reads : ∀ task, after.tasks.head? = some task → Reads sheet after.run task) : Sourced sheet after where
  size := Nat.le_trans sourced.size widens.size
  comment := fun n low => (widens.comment n (Nat.lt_of_lt_of_le low sourced.size)).trans (sourced.comment n low)
  fresh := by
    intro n low high
    by_cases early : n < before.run.scene.sheet.size
    · exact widens.handled (sourced.fresh n low early)
    · exact widens.fresh n (Nat.le_of_not_lt early) high
  reads := reads

theorem reads_arrivals {run : Run State} (task : Run.Task State)
    (next : (later.map .arrive : List (Run.Task State)).head? = some task) : Reads sheet run task := by
  cases later with
  | nil => cases next
  | cons first rest =>
    cases next
    trivial

theorem Onward.of_steady {run now : Run State} {tasks rest : List (Run.Task State)} (aligned : Aligned run)
    (sourced : Sourced sheet ⟨tasks, run⟩) (steady : Steady run now)
    (reads : ∀ task, rest.head? = some task → Reads sheet now task) : Onward sheet ⟨tasks, run⟩ ⟨rest, now⟩ :=
  ⟨aligned.of_steady steady, .stays steady.blocks steady.saved, sourced.widen steady.scene reads⟩

/-- On arrival at a node that is not done with, its comment is found as it was. -/
theorem Aligned.arrive (options : Options) {run : Run State} (aligned : Aligned run)
    (sourced : Sourced sheet ⟨.arrive node :: later.map .arrive, run⟩) :
    Onward sheet ⟨.arrive node :: later.map .arrive, run⟩
      (Moment.next (engine options).registry ⟨.arrive node :: later.map .arrive, run⟩) := by
  rw [Run.next_arrive]
  split
  · exact Onward.of_steady aligned sourced (Calm.refl run).steady reads_arrivals
  · rename_i known
    have marked : Calm run (run.marked node) := { Calm.refl run with handled := List.subset_cons_self _ _ }
    refine Onward.of_steady aligned sourced marked.steady ?_
    rintro _ ⟨⟩
    change run.scene.sheet.comment? node = sheet.comment? node
    by_cases low : node < sheet.size
    · exact sourced.comment node low
    · have absent : run.scene.sheet.size ≤ node := by
        by_contra inside
        exact known (sourced.fresh node (Nat.le_of_not_lt low) (Nat.lt_of_not_le inside))
      rw [Sheet.comment?_of_size_le absent, Sheet.comment?_of_size_le (Nat.le_of_not_lt low)]

/-- An open directive that is asked about a node may be closed there, but no block of options is. -/
theorem Aligned.asking (options : Options) {run : Run State} (aligned : Aligned run) {kind : Kind} {claimed : Bool}
    {kept others : List (OpenDirective State)} {entry : OpenDirective State} (row : run.stack = kept ++ entry :: others)
    (sourced : Sourced sheet ⟨.ask node kind kept claimed (entry :: others) :: later.map .arrive, run⟩) :
    Onward sheet ⟨.ask node kind kept claimed (entry :: others) :: later.map .arrive, run⟩
      (Moment.next (engine options).registry ⟨.ask node kind kept claimed (entry :: others) :: later.map .arrive, run⟩) := by
  have genuine := aligned.genuine entry (by simp [row])
  have asked := calm_ask genuine node kind run
  have still : (Run.ask node kind entry run).1.scene.sheet.comment? node = sheet.comment? node :=
    (asked.sheet.comment node).trans (sourced.reads _ rfl)
  simp only [Moment.next, Run.Task.step]
  split
  · rename_i closed
    have foreign : isOptions entry = false := by
      cases named : isOptions entry with
      | false => rfl
      | true =>
        rw [ask_of_isOptions genuine named] at closed
        cases closed
    have ended : Steady _ ((Run.ask node kind entry run).1.endDirective entry (kept ++ others)) :=
      .endDirective (asked.stack.trans row) foreign
    refine Onward.of_steady aligned sourced (asked.steady.trans ended) ?_
    rintro _ ⟨⟩
    exact ((Calm.stripSource _ _ _).sheet.comment node).trans still
  · refine Onward.of_steady aligned sourced asked.steady ?_
    rintro _ ⟨⟩
    exact still

/-- The forms of a comment that are left are forms of the sheet, and those of `options` change what belongs together. -/
theorem Aligned.obeying (keeps : KeepsOptions sheet) (options : Options) {run : Run State} (aligned : Aligned run)
    {preserve consumed : Bool} {form : Directive.Form} {others : List Directive.Form}
    (sourced : Sourced sheet ⟨.obey node preserve consumed (form :: others) :: later.map .arrive, run⟩) :
    Onward sheet ⟨.obey node preserve consumed (form :: others) :: later.map .arrive, run⟩
      (Moment.next (engine options).registry ⟨.obey node preserve consumed (form :: others) :: later.map .arrive, run⟩) := by
  obtain ⟨listed, rest⟩ := List.cons_subset.mp (sourced.reads _ rfl)
  have left : ∀ task, (Moment.next (engine options).registry
      ⟨.obey node preserve consumed (form :: others) :: later.map .arrive, run⟩).tasks.head? = some task →
      Reads sheet (Moment.next (engine options).registry
        ⟨.obey node preserve consumed (form :: others) :: later.map .arrive, run⟩).run task := by
    simp only [Moment.next, Run.Task.step]
    split
    · rintro _ ⟨⟩
      exact rest
    · rintro _ ⟨⟩
      exact rest
    · rintro _ ⟨⟩
      exact List.nil_subset _
  have obeyed := Run.run_next_obey (engine options).registry node preserve consumed form others (later.map .arrive) run
  by_cases named : form.name = "options".toList
  · have begun : Moment.run ⟨.obey node preserve consumed (form :: others) :: later.map .arrive, run⟩ = run := rfl
    obtain ⟨aligned, shift, widens⟩ := aligned.obey options named begun obeyed rfl (keeps node form listed named)
    exact ⟨aligned, shift, sourced.widen widens left⟩
  · have steady : Steady run (Run.obey (engine options).registry run (invocationOf node preserve form)).2 :=
      steady_obey named aligned.genuine options
    rw [← obeyed] at steady
    exact Onward.of_steady aligned sourced steady left

/-- One step of a visit. -/
theorem Aligned.next (keeps : KeepsOptions sheet) (options : Options) (aligned : Aligned before.run)
    (stage : Stage node (later.map .arrive) before) (sourced : Sourced sheet before) :
    Onward sheet before (before.next (engine options).registry) := by
  cases stage with
  | @asking kept entries kind claimed run row =>
    cases entries with
    | nil =>
      have here := sourced.reads _ rfl
      have same : { run with stack := kept } = run := by
        rw [List.append_nil] at row
        rw [← row]
      simp only [Moment.next, Run.Task.step, same]
      refine Onward.of_steady aligned sourced (Calm.refl run).steady ?_
      cases claimed with
      | true => exact reads_arrivals
      | false =>
        rintro _ ⟨⟩
        exact here
    | cons entry others => exact aligned.asking options row sourced
  | passing run =>
    have here := sourced.reads _ rfl
    simp only [Moment.next, Run.Task.step]
    split
    · split
      · exact Onward.of_steady aligned sourced (Calm.refl run).steady reads_arrivals
      · rename_i comment found
        refine Onward.of_steady aligned sourced (Calm.refl run).steady ?_
        rintro _ ⟨⟩
        change run.scene.sheet.comment? node = sheet.comment? node at here
        have same : formsAt sheet node = comment.forms := by
          rw [here] at found
          rw [formsAt, found]
          rfl
        change comment.forms ⊆ formsAt sheet node
        rw [same]
        exact List.Subset.refl _
    · exact Onward.of_steady aligned sourced ((Calm.refl run).recount _ _ _).steady reads_arrivals
    · exact Onward.of_steady aligned sourced (calm_of_rewritten (run.rewritten_flipParams node)).steady reads_arrivals
    · refine Onward.of_steady aligned sourced (Calm.refl run).steady ?_
      rintro _ ⟨⟩
      trivial
    · exact Onward.of_steady aligned sourced (Calm.refl run).steady reads_arrivals
  | obeying preserve consumed forms run =>
    cases forms with
    | nil =>
      simp only [Moment.next, Run.Task.step]
      split
      · exact Onward.of_steady aligned sourced (Calm.stripSource run node preserve).steady reads_arrivals
      · exact Onward.of_steady aligned sourced (Calm.refl run).steady reads_arrivals
    | cons form others => exact aligned.obeying keeps options sourced
  | flipping run =>
    refine Onward.of_steady aligned sourced (calm_of_rewritten (rewritten_flipValue options run node)).steady ?_
    rintro _ ⟨⟩
    trivial
  | naming run => exact Onward.of_steady aligned sourced (calm_of_rewritten (run.rewritten_renameAround node)).steady reads_arrivals

end

/-! ## A whole run -/

/-- An open block was opened by a form of its own and has been open ever since, and what is saved for it are the options
that were in force there. -/
theorem exists_opened {moment : Nat → Moment State} (first : blocks (moment 0).run = [])
    (shifts : ∀ time, Shift (moment time) (moment (time + 1))) (time : Nat) {front later : List (OpenDirective State)}
    {entry : OpenDirective State} (row : blocks (moment time).run = front ++ entry :: later) :
    ∃ opened < time, (moment opened).invocations.head? = some entry.invocation ∧ blocks (moment opened).run = front ∧
      (∀ between, opened < between → between ≤ time → front ++ [entry] <+: blocks (moment between).run) ∧
      ∃ inner, inner.length = later.length ∧
        (moment time).run.store.saved = inner ++ (moment opened).run.scene.options :: (moment opened).run.store.saved := by
  induction time generalizing later with
  | zero =>
    rw [first] at row
    simp at row
  | succ time ih =>
    -- What has been open up to this moment is still open after it.
    have since : ∀ {opened : Nat},
        (∀ between, opened < between → between ≤ time → front ++ [entry] <+: blocks (moment between).run) →
        ∀ between, opened < between → between ≤ time + 1 → front ++ [entry] <+: blocks (moment between).run := by
      intro opened before between low high
      rcases Nat.lt_or_eq_of_le high with early | rfl
      · exact before between low (Nat.le_of_lt_succ early)
      · rw [row]
        exact ⟨later, by simp⟩
    rcases shifts time with ⟨same, saved⟩ | ⟨latest, form, added, saved⟩ | ⟨closed, rest, saved⟩
    · obtain ⟨opened, early, form, before, still, inner, counted, kept⟩ := ih (same ▸ row)
      exact ⟨opened, Nat.lt_succ_of_lt early, form, before, since still, inner, counted, saved.trans kept⟩
    · rcases List.eq_nil_or_concat later with rfl | ⟨others, last, rfl⟩
      · rw [added] at row
        obtain ⟨before, latest⟩ := List.append_inj' row rfl
        cases latest
        refine ⟨time, Nat.lt_succ_self time, form, before, ?_, [], rfl, saved⟩
        exact since fun between low high => absurd (Nat.lt_of_lt_of_le low high) (Nat.lt_irrefl time)
      · rw [added, List.concat_eq_append, ← List.cons_append, ← List.append_assoc] at row
        obtain ⟨opened, early, form, before, still, inner, counted, kept⟩ := ih (List.append_inj' row rfl).1
        refine ⟨opened, Nat.lt_succ_of_lt early, form, before, since still, (moment time).run.scene.options :: inner, ?_, ?_⟩
        · rw [List.length_cons, counted, List.concat_eq_append, List.length_append, List.length_singleton]
        · rw [saved, kept, List.cons_append]
    · rw [row, List.append_assoc, List.cons_append] at rest
      obtain ⟨opened, early, form, before, still, inner, counted, kept⟩ := ih rest
      cases inner with
      | nil => simp at counted
      | cons first inner =>
        rw [saved, List.cons_append] at kept
        refine ⟨opened, Nat.lt_succ_of_lt early, form, before, since still, inner, ?_, (List.cons.inj kept).2⟩
        simpa using counted

section
variable {options : Options} {sheet : Sheet} (valid : options.fault? = none)
  (enabled : options.disables pluginName "options".toList = false) (keeps : KeepsOptions sheet)
include keeps

theorem onward_momentAt {time : Nat} (aligned : Aligned ((engine options).momentAt sheet time).run)
    (sourced : Sourced sheet ((engine options).momentAt sheet time)) :
    Onward sheet ((engine options).momentAt sheet time) ((engine options).momentAt sheet (time + 1)) := by
  obtain ⟨later, between | ⟨node, stage⟩⟩ :=
    Run.exists_stage_courseAt (engine options).registry ((engine options).start sheet) ((engine options).trail sheet) time
  · change ((engine options).momentAt sheet time).tasks = _ at between
    change Onward sheet _ (((engine options).momentAt sheet time).next (engine options).registry)
    generalize (engine options).momentAt sheet time = moment at between aligned sourced ⊢
    obtain ⟨tasks, run⟩ := moment
    obtain rfl : tasks = _ := between
    cases later with
    | nil => exact .of_steady aligned sourced (Calm.refl run).steady sourced.reads
    | cons node rest => exact aligned.arrive options sourced
  · exact aligned.next keeps options stage sourced

include valid enabled

/-- At every moment the options in force, the saved ones and the open blocks are in order. -/
theorem aligned_momentAt (time : Nat) :
    Aligned ((engine options).momentAt sheet time).run ∧ Sourced sheet ((engine options).momentAt sheet time) := by
  induction time with
  | zero =>
    refine ⟨⟨⟨valid, enabled, rfl⟩, ?_, rfl, ?_, ?_⟩, ⟨Nat.le_refl _, fun _ _ => rfl, ?_, reads_arrivals⟩⟩
    · intro _ member
      cases member
    · intro _ member
      cases member
    · intro _ member
      cases member
    · intro n low high
      exact absurd (Nat.lt_of_lt_of_le high low) (Nat.lt_irrefl n)
  | succ time ih =>
    obtain ⟨aligned, sourced⟩ := ih
    have onward := onward_momentAt keeps aligned sourced
    exact ⟨onward.aligned, onward.sourced⟩

theorem shift_momentAt (time : Nat) :
    Shift ((engine options).momentAt sheet time) ((engine options).momentAt sheet (time + 1)) :=
  (onward_momentAt keeps (aligned_momentAt valid enabled keeps time).1 (aligned_momentAt valid enabled keeps time).2).shift

end

/-- In every run of the standard engine, whatever the sheet, as long as nothing switches `options` off: the options in force
are valid, the string map is the one made from them, and there are as many saved options as open blocks. A form of `options`
that opens puts the options of its argument in force, or leaves all as it is and warns once if the argument describes none.
A form that closes ends the innermost block, which has been open since a form of its own, and puts the options in force
again that were in force there. -/
theorem options_blocks_nest {options : Options} {sheet : Sheet} (valid : options.fault? = none)
    (enabled : options.disables pluginName "options".toList = false) (keeps : KeepsOptions sheet) :
    let moment := (engine options).momentAt sheet
    (∃ final, (moment final).tasks = [] ∧ ((engine options).flip sheet).1 = (moment final).run.scene.sheet ∧
      ((engine options).flip sheet).2.1 = (moment final).run.report) ∧
    ∀ time,
      let before := (moment time).run
      let after := (moment (time + 1)).run
      (before.scene.options.fault? = none ∧ before.scene.map = before.scene.options.map ∧
        before.store.saved.length = (blocks before).length) ∧
      ∀ invocation, (moment time).invocations.head? = some invocation → invocation.name = "options".toList →
        (invocation.opens = true →
          (∀ replacing, Options.ofText .json invocation.argument = .ok replacing →
            after.scene.options = replacing ∧ after.scene.map = replacing.map ∧
              after.scene.warnings = before.scene.warnings) ∧
          ∀ error, Options.ofText .json invocation.argument = .error error →
            after.scene.options = before.scene.options ∧ after.scene.map = before.scene.map ∧
              after.scene.warnings = before.scene.warnings ++
                [⟨.badArgument, invocation.source, "invalid options: configuration error".toList⟩]) ∧
        (invocation.opens = false → ∀ front entry later,
          Run.lastNamed? "options".toList before.stack = some (front, entry, later) →
          after.stack = front ++ later ∧
          ∃ opened < time, (moment opened).invocations.head? = some entry.invocation ∧
            entry.invocation.opens = true ∧ entry.invocation.closes = false ∧
            blocks before = blocks (moment opened).run ++ [entry] ∧
            (∀ between, opened < between → between ≤ time →
              blocks (moment opened).run ++ [entry] <+: blocks (moment between).run) ∧
            after.scene.options = (moment opened).run.scene.options ∧ after.scene.map = (moment opened).run.scene.map) := by
  intro moment
  constructor
  · obtain ⟨final, ended⟩ := (engine options).exists_momentAt_eq_traverse sheet
    refine ⟨final, ?_⟩
    rw [show moment final = _ from ended]
    exact ⟨rfl, rfl, rfl⟩
  · intro time before after
    have aligned : Aligned before := (aligned_momentAt valid enabled keeps time).1
    refine ⟨⟨aligned.inForce.valid, aligned.inForce.map, aligned.counted⟩, ?_⟩
    intro invocation form named
    have obeyed : after = (Run.obey (engine options).registry before invocation).2 := Run.run_succ_of_invocation form
    constructor
    · intro opens
      have scene : after.scene = replaced before.scene invocation := by
        cases closes : invocation.closes with
        | true => rw [obeyed, obey_options_once options aligned.inForce.enabled named opens closes]
        | false => rw [obeyed, obey_options_begin options aligned.inForce.enabled named opens closes]
      rw [scene]
      constructor
      · intro replacing read
        rw [replaced, read]
        exact ⟨rfl, rfl, rfl⟩
      · intro error read
        rw [replaced, read]
        exact ⟨rfl, rfl, rfl⟩
    · intro opens front entry later innermost
      obtain ⟨live, inner, outer, saved, innerValid, _, _⟩ := aligned.exists_saved innermost
      rw [obey_options_end options aligned.inForce.enabled named opens innermost live saved innerValid] at obeyed
      have closed : Calm { setSaved before outer with
          scene := { before.scene with options := inner, map := inner.map }, stack := front ++ later } after := by
        rw [obeyed]
        exact Calm.stripSource _ _ _
      have row : blocks before = front.filter isOptions ++ entry :: [] := (filter_isOptions_of_lastNamed? innermost).1
      obtain ⟨opened, early, begun, outside, still, none, counted, kept⟩ :=
        exists_opened rfl (shift_momentAt valid enabled keeps) time row
      obtain rfl : none = [] := List.eq_nil_of_length_eq_zero counted
      -- So the options saved last are those that were in force before the block.
      have back : inner = (moment opened).run.scene.options := (List.cons.inj (saved.symm.trans kept)).1
      have shape := (aligned.live entry (by rw [row]; simp)).2
      have there := (aligned_momentAt valid enabled keeps opened).1.inForce.map
      refine ⟨closed.stack, opened, early, begun, shape.1, shape.2, ?_, ?_, ?_, ?_⟩
      · rw [outside]
        exact row
      · rw [outside]
        exact still
      · rw [closed.options, ← back]
      · rw [closed.map, show (moment opened).run.scene.map = _ from there, ← back]

/-- Two blocks, one in the other, with a form in between that replaces the options for good: at the end of the outer block
the first options are back, and of the three arguments the one that describes no options has been warned about. -/
theorem options_blocks_nest_replaced :
    ∃ sheet, Sheet.parse ("/*rtl:begin:options:\x7b\"autoRename\":true\x7d*//*rtl:options:\x7b\"greedy\":true\x7d*/".toList ++
        "/*rtl:begin:options:[*//*rtl:end:options*//*rtl:end:options*/".toList) = .ok sheet ∧
      ({} : Options).fault? = none ∧ ({} : Options).disables pluginName "options".toList = false ∧ KeepsOptions sheet ∧
      let moment := (engine {}).momentAt sheet
      (moment 31).run.scene.options = { greedy := true } ∧ (moment 32).run.scene.options = {} ∧
      (∃ front entry later opened, Run.lastNamed? "options".toList (moment 31).run.stack = some (front, entry, later) ∧
        opened < 31 ∧ (moment opened).invocations.head? = some entry.invocation ∧
        blocks (moment 31).run = blocks (moment opened).run ++ [entry] ∧
        (moment 32).run.scene.options = (moment opened).run.scene.options ∧
        (moment 32).run.scene.map = (moment opened).run.scene.map) ∧
      (moment 19).run.scene.warnings =
        (moment 18).run.scene.warnings ++ [⟨.badArgument, 3, "invalid options: configuration error".toList⟩] := by
  obtain ⟨sheet, parsed, test⟩ := Sheet.exists_of_readable
    (by decide +kernel : (Sheet.parse
      ("/*rtl:begin:options:\x7b\"autoRename\":true\x7d*//*rtl:options:\x7b\"greedy\":true\x7d*/".toList ++
        "/*rtl:begin:options:[*//*rtl:end:options*//*rtl:end:options*/".toList)).toOption.any (fun sheet =>
        let moment := (engine {}).momentAt sheet
        decide (KeepsOptions sheet) &&
          (moment 18).invocations.head? == some (invocationOf 3 false ⟨"options".toList, "[".toList, true, false⟩) &&
          (moment 31).invocations.head? == some (invocationOf 5 false ⟨"options".toList, [], false, true⟩) &&
          (Run.lastNamed? "options".toList (moment 31).run.stack).isSome &&
          decide ((moment 31).run.scene.options = { greedy := true }) && decide ((moment 32).run.scene.options = {})) = true)
  simp only [Bool.and_eq_true, beq_iff_eq, decide_eq_true_eq] at test
  obtain ⟨⟨⟨⟨⟨keeps, bad⟩, closing⟩, isOpen⟩, inside⟩, behind⟩ := test
  have valid : ({} : Options).fault? = none := by decide
  have enabled : ({} : Options).disables pluginName "options".toList = false := by decide
  obtain ⟨_, along⟩ := options_blocks_nest valid enabled keeps
  refine ⟨sheet, parsed, valid, enabled, keeps, inside, behind, ?_, ?_⟩
  · obtain ⟨⟨front, entry, later⟩, innermost⟩ := Option.isSome_iff_exists.mp isOpen
    obtain ⟨_, opened, early, begun, _, _, row, _, options, map⟩ :=
      ((along 31).2 _ closing rfl).2 rfl front entry later innermost
    exact ⟨front, entry, later, opened, innermost, early, begun, row, options, map⟩
  · have unread : Options.ofText .json "[".toList = .error (.malformed .json) := by cbv
    exact ((((along 18).2 _ bad rfl).1 rfl).2 _ unread).2.2

end Standard
end StyleFlip
