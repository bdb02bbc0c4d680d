import StyleFlip.Proofs.Cleaning
import StyleFlip.Proofs.OptionsBlocks
import StyleFlip.Proofs.Rewriting
import StyleFlip.Proofs.Trail

/-!
Which directive comments are stripped. As long as no options switch a directive off (`Unrestricted`), a comment is settled
behind its visit: it is cut off exactly if it may be stripped, one of its forms was handled and nothing that it opened is
open (`Settled`). Its own visit brings this about (`settled_visit`), and visits to other nodes keep it so
(`Settled.visit_of_ne`): they cut it off only when they close the last directive that it opened. Main statement:
`detached_iff`.
-/
namespace StyleFlip

namespace Standard
open Run (invocationOf)

/-! ## Options that switch nothing off -/

/-- The options switch no directive of the standard plugin off. -/
def AllowsAll (options : Options) : Prop := ∀ name, options.disables pluginName name = false

/-- The options that the forms of `options` in a sheet describe. -/
def described (sheet : Sheet) : List Options :=
  (List.range sheet.size).flatMap fun node => (formsAt sheet node).filterMap fun form =>
    if form.opens && form.name == "options".toList then (Options.ofText .json form.argument).toOption else none

/-- The standard plugin has a directive of the form's name. -/
def isSupported (form : Directive.Form) : Bool := (plugin (.whole State)).controls.any (·.name == form.name)

/-- Neither the options in force nor those that are saved switch a directive off. -/
structure Unrestricted (run : Run State) : Prop where
  inForce : AllowsAll run.scene.options
  saved : ∀ options ∈ run.store.saved, AllowsAll options

theorem allowsAll_of_blacklist_eq_nil {options : Options} (empty : options.blacklist = []) : AllowsAll options := by
  intro name
  rw [Options.disables, empty]
  rfl

section
variable {sheet : Sheet} {c : Nat} {run after : Run State}

theorem mem_described {form : Directive.Form} (listed : form ∈ formsAt sheet c) (opens : form.opens = true)
    (named : form.name = "options".toList) {inner : Options} (read : Options.ofText .json form.argument = .ok inner) :
    inner ∈ described sheet := by
  have inside : c < sheet.size := by
    by_contra high
    rw [formsAt_of_size_le (Nat.le_of_not_lt high)] at listed
    cases listed
  refine List.mem_flatMap.mpr ⟨c, List.mem_range.mpr inside, List.mem_filterMap.mpr ⟨form, listed, ?_⟩⟩
  simp [opens, named, read, Except.toOption]

theorem Unrestricted.of_steady (unrestricted : Unrestricted run) (steady : Steady run after) : Unrestricted after :=
  ⟨steady.options ▸ unrestricted.inForce, steady.saved ▸ unrestricted.saved⟩

theorem unrestricted_start {options : Options} (allowed : AllowsAll options) (sheet : Sheet) :
    Unrestricted ((engine options).start sheet) :=
  ⟨allowed, fun _ none => by cases none⟩

/-- To go back to saved options is to go back to options that switch nothing off. -/
theorem Unrestricted.leave (unrestricted : Unrestricted run) {control : Control State}
    (member : control ∈ (plugin (.whole State)).controls) (node : NodeId) (invocation : Invocation) :
    Unrestricted (run.call (control.leave node invocation)).2 := by
  by_cases named : control.name = "options".toList
  · obtain rfl | rfl | rfl | rfl | rfl := control_cases member
    · exact absurd named (by decide)
    · exact absurd named (by decide)
    · exact absurd named (by decide)
    · exact absurd named (by decide)
    · obtain ⟨inForce, known⟩ := unrestricted
      simp only [leave_options, Run.call, leaveOptions, Slot.whole, id]
      cases saved : run.store.saved with
      | nil => exact ⟨inForce, known⟩
      | cons inner outer =>
        rw [saved] at known
        obtain ⟨first, rest⟩ := List.forall_mem_cons.mp known
        simp only [Scene.adopt?]
        split
        · exact ⟨inForce, rest⟩
        · split
          · exact ⟨inForce, rest⟩
          · exact ⟨first, rest⟩
  · exact unrestricted.of_steady (calm_leave member named node invocation run).steady

theorem Unrestricted.replaced (unrestricted : Unrestricted run) {invocation : Invocation}
    (harmless : ∀ inner, Options.ofText .json invocation.argument = .ok inner → AllowsAll inner) :
    AllowsAll (replaced run.scene invocation).options := by
  unfold Standard.replaced
  cases read : Options.ofText .json invocation.argument with
  | ok inner => exact harmless inner read
  | error => exact unrestricted.inForce

theorem Unrestricted.endDirective (unrestricted : Unrestricted run) (entry : OpenDirective State)
    (stack : List (OpenDirective State)) : Unrestricted (run.endDirective entry stack) := by
  have closed : Unrestricted { run with stack := stack } := ⟨unrestricted.inForce, unrestricted.saved⟩
  exact closed.of_steady (Calm.stripSource _ _ _).steady

theorem Unrestricted.obeyEnd (unrestricted : Unrestricted run) (genuine : ∀ entry ∈ run.stack, Genuine entry)
    (invocation : Invocation) : Unrestricted (run.obeyEnd invocation) := by
  unfold Run.obeyEnd
  split
  · exact unrestricted.of_steady (Calm.warn run _ _ _).steady
  · rename_i front entry later found
    have listed : entry ∈ run.stack := by simp [(Run.mem_of_lastNamed? found).1]
    cases live : entry.control with
    | none => exact unrestricted.endDirective entry _
    | some control =>
      have left := unrestricted.leave ((genuine entry listed).control control live).1 invocation.source invocation
      simp only
      split
      · exact left.endDirective entry _
      · exact left

/-- A form of a comment puts in force what it describes or what was saved. -/
theorem Unrestricted.obey (unrestricted : Unrestricted run) (genuine : ∀ entry ∈ run.stack, Genuine entry) (options : Options)
    {invocation : Invocation} (harmless : invocation.name = "options".toList → invocation.opens = true →
      ∀ inner, Options.ofText .json invocation.argument = .ok inner → AllowsAll inner) :
    Unrestricted (Run.obey (engine options).registry run invocation).2 := by
  by_cases named : invocation.name = "options".toList
  · have enabled := unrestricted.inForce "options".toList
    cases opens : invocation.opens with
    | true =>
      have replaced := unrestricted.replaced (harmless named opens)
      cases closes : invocation.closes with
      | true =>
        rw [obey_options_once options enabled named opens closes]
        exact ⟨replaced, unrestricted.saved⟩
      | false =>
        rw [obey_options_begin options enabled named opens closes]
        exact ⟨replaced, List.forall_mem_cons.mpr ⟨unrestricted.inForce, unrestricted.saved⟩⟩
    | false =>
      simp only [Run.obey, lookup_options options enabled named, opens, Bool.false_eq_true, if_false]
      exact unrestricted.obeyEnd genuine invocation
  · exact unrestricted.of_steady (steady_obey named genuine options)

/-- To ask the open directives about a node leaves options alone. -/
theorem steady_consult (node : NodeId) (kind : Kind) {kept entries : List (OpenDirective State)} (claimed : Bool)
    (row : run.stack = kept ++ entries) (genuine : ∀ entry ∈ run.stack, Genuine entry) :
    Steady run (Run.consult node kind kept claimed entries run).2 := by
  induction entries generalizing run kept claimed with
  | nil =>
    rw [List.append_nil] at row
    exact .setStack (by rw [row]) fun entry member => .inl (row ▸ member)
  | cons entry rest ih =>
    have known := genuine entry (by simp [row])
    have asked := calm_ask known node kind run
    have still : ∀ other ∈ (Run.ask node kind entry run).1.stack, Genuine other := asked.stack.symm ▸ genuine
    rw [Run.consult_cons]
    simp only
    split
    · rename_i closed
      have foreign : isOptions entry = false := by
        cases named : isOptions entry with
        | false => rfl
        | true =>
          rw [ask_of_isOptions known named] at closed
          cases closed
      have ended : Steady _ ((Run.ask node kind entry run).1.endDirective entry (kept ++ rest)) :=
        .endDirective (asked.stack.trans row) foreign
      refine asked.steady.trans (ended.trans (ih _ (Run.stack_endDirective _ _ _) ?_))
      intro other member
      exact (ended.known other member).elim (still other) id
    · refine asked.steady.trans (ih _ ?_ still)
      rw [asked.stack, row, List.append_assoc, List.singleton_append]

theorem steady_gate {node : Nat} (fresh : node ∉ run.scene.handled) (genuine : ∀ entry ∈ run.stack, Genuine entry) :
    Steady run (run.gate node).2 := by
  rw [Run.gate_eq_consult fresh]
  have marked : Calm run (run.marked node) := { Calm.refl run with handled := List.subset_cons_self _ _ }
  exact marked.steady.trans (steady_consult node _ false rfl genuine)

/-- The forms of a comment put in force what the sheet describes. -/
theorem Unrestricted.obeyForms {whole : Item} (holds : sheet.Holds whole) (inside : c < sheet.size) (options : Options)
    (harmless : ∀ inner ∈ described sheet, AllowsAll inner) {earlier : List (OpenDirective State)}
    (during : During sheet (IsLeaf sheet) c earlier run) (unrestricted : Unrestricted run) (preserve consumed : Bool)
    {forms : List Directive.Form} (known : forms ⊆ formsAt sheet c) :
    Unrestricted (Run.obeyForms (engine options).registry c preserve consumed forms run).2 := by
  induction forms generalizing run consumed with
  | nil => exact unrestricted
  | cons form rest ih =>
    obtain ⟨listed, others⟩ := List.cons_subset.mp known
    have obeyed : Unrestricted (Run.obey (engine options).registry run (invocationOf c preserve form)).2 :=
      unrestricted.obey (fun entry member => (during.stack entry member).2) options
        fun named opens inner read => harmless inner (mem_described listed opens named read)
    have onward := during.obey holds inside (isLeaf_none sheet) options (invocationOf c preserve form) rfl
    unfold Run.obeyForms
    simp only
    split
    · exact ih onward obeyed _ others
    · exact ih onward obeyed _ others
    · exact obeyed

theorem forms_eq_formsAt {earlier : List (OpenDirective State)} (during : During sheet (IsLeaf sheet) c earlier run)
    {comment : Directive.Comment} (found : (run.scene.sheet.comment? c).bind Directive.Comment.parse? = some comment) :
    formsAt sheet c = comment.forms := by
  rw [during.comment] at found
  rw [formsAt, found]
  rfl

/-- No visit puts options in force or saves any that switch a directive off. -/
theorem Unrestricted.visit {whole : Item} (holds : sheet.Holds whole) (inside : c < sheet.size) (options : Options)
    (harmless : ∀ inner ∈ described sheet, AllowsAll inner) (reached : Reached sheet (IsLeaf sheet) c run)
    (unrestricted : Unrestricted run) : Unrestricted (Run.visit (engine options).registry run c) := by
  have passed := reached.gate holds inside (isLeaf_none sheet) (isLeaf_lastBelow holds inside)
  have gated : Unrestricted (run.gate c).2 :=
    unrestricted.of_steady (steady_gate (reached.not_mem_handled inside) fun entry member => (reached.stack entry member).2)
  unfold Run.visit
  simp only
  split
  · split
    · unfold Run.obeyComment
      split
      · exact gated
      · rename_i comment found
        have known : comment.forms ⊆ formsAt sheet c := by
          rw [forms_eq_formsAt passed found]
          exact List.Subset.refl _
        have obeyed := gated.obeyForms holds inside options harmless passed
          (comment.preserve || !(run.gate c).2.scene.options.clean) false known
        simp only
        split
        · exact obeyed.of_steady (Calm.stripSource _ _ _).steady
        · exact obeyed
    · exact ⟨gated.inForce, gated.saved⟩
    · exact gated.of_steady (calm_of_rewritten (Run.rewritten_flipParams _ c)).steady
    · have rewritten := (rewritten_flipValue options (run.gate c).2 c).trans (Run.rewritten_renameAround _ c)
      exact gated.of_steady (calm_of_rewritten rewritten).steady
    · exact gated
  · exact gated

end

end Standard

namespace Run
variable {σ : Type} {registry : Registry σ} {run : Run σ}

/-! ## Forms in turn -/

/-- A form of a directive that is found is dealt with, and one that only closes is the last that is looked at. -/
theorem outcome_of_found {form : Invocation} {control : Control σ}
    (found : registry.lookup run.scene.options form.name = .found control) :
    (Run.obey registry run form).1 = .final ∨ (Run.obey registry run form).1 = .taken ∧ form.opens = true := by
  unfold Run.obey
  rw [found]
  cases opens : form.opens with
  | false => exact .inl rfl
  | true =>
    simp only [if_true]
    split
    · exact .inl rfl
    · exact .inr ⟨rfl, trivial⟩

theorem exists_obey_of_missing {form : Invocation} (missing : registry.lookup run.scene.options form.name = .missing) :
    ∃ message, Run.obey registry run form = (.unknown, run.warn .unknown form.source message) := by
  unfold Run.obey
  rw [missing]
  exact ⟨_, rfl⟩

section
variable {source : NodeId} {preserve consumed : Bool} {form : Directive.Form} {rest : List Directive.Form}

theorem obeyForms_of_taken (taken : (obey registry run (invocationOf source preserve form)).1 = .taken) :
    obeyForms registry source preserve consumed (form :: rest) run =
      obeyForms registry source preserve true rest (obey registry run (invocationOf source preserve form)).2 := by
  rw [obeyForms, ← invocationOf]
  simp only [taken]

theorem obeyForms_of_unknown (unknown : (obey registry run (invocationOf source preserve form)).1 = .unknown) :
    obeyForms registry source preserve consumed (form :: rest) run =
      obeyForms registry source preserve consumed rest (obey registry run (invocationOf source preserve form)).2 := by
  rw [obeyForms, ← invocationOf]
  simp only [unknown]

theorem obeyForms_of_final (final : (obey registry run (invocationOf source preserve form)).1 = .final) :
    obeyForms registry source preserve consumed (form :: rest) run =
      (true, (obey registry run (invocationOf source preserve form)).2) := by
  rw [obeyForms, ← invocationOf]
  simp only [final]

end
end Run

namespace Standard
open Run (invocationOf)

/-! ## What a form does to open directives -/

/-- What a form of the comment at `source` may do to the open directives and to the places of the nodes, where `preserve` says
whether the comment is kept and `opening` whether the form opens a directive. -/
inductive Obeyed (source : NodeId) (preserve opening : Bool) (before after : Run State) : Prop where
  | acts (row : after.stack = before.stack) (sheet : before.scene.sheet.Spread after.scene.sheet)
  | opens (entry : OpenDirective State) (genuine : Genuine entry) (own : entry.invocation.source = source)
      (kept : entry.invocation.preserve = preserve) (row : after.stack = before.stack ++ [entry])
      (sheet : before.scene.sheet.Spread after.scene.sheet)
  | closes (closing : opening = false) (entry : OpenDirective State) {front later : List (OpenDirective State)}
      (middle : Run State) (row : middle.stack = front ++ entry :: later) (same : middle.stack = before.stack)
      (sheet : middle.scene.sheet = before.scene.sheet) (outcome : after = middle.endDirective entry (front ++ later))

section
variable {run : Run State} {form : Invocation}

theorem obeyed_passOver (name : Text) (form : Invocation) :
    Obeyed form.source form.preserve form.opens run (run.passOver name form) := by
  unfold Run.passOver
  cases opens : form.opens with
  | true =>
    cases form.closes with
    | true => exact .acts rfl (.refl _)
    | false => exact .opens ⟨form, none⟩ ⟨opens, fun _ none => by cases none⟩ rfl rfl rfl (.refl _)
  | false =>
    cases form.closes with
    | false => exact .acts rfl (.refl _)
    | true =>
      simp only [Bool.false_eq_true, if_false]
      split
      · rename_i found
        exact .closes rfl _ run (Run.mem_of_lastNamed? found).1 rfl rfl rfl
      · exact .acts rfl (.refl _)

theorem obeyed_obeyEnd (genuine : ∀ entry ∈ run.stack, Genuine entry) (form : Invocation) :
    Obeyed form.source form.preserve false run (run.obeyEnd form) := by
  unfold Run.obeyEnd
  split
  · exact .acts rfl (.refl _)
  · rename_i front entry later found
    have row := (Run.mem_of_lastNamed? found).1
    cases live : entry.control with
    | none => exact .closes rfl entry run row rfl rfl rfl
    | some control =>
      have member := ((genuine entry (by simp [row])).control control live).1
      have left : (run.call (control.leave form.source form)).2.scene.sheet = run.scene.sheet := sheet_leave member _ _
      simp only
      split
      · exact .closes rfl entry (run.call (control.leave form.source form)).2 row rfl left rfl
      · refine .acts rfl ?_
        rw [left]
        exact .refl _

theorem obeyed_obey (genuine : ∀ entry ∈ run.stack, Genuine entry) (options : Options) (form : Invocation) :
    Obeyed form.source form.preserve form.opens run (Run.obey (engine options).registry run form).2 := by
  unfold Run.obey
  split
  · exact obeyed_passOver _ { form with disabled := true }
  · exact .acts rfl (.refl _)
  · rename_i control found
    have known := of_lookup_eq_found found
    have completed : run.scene.sheet.Spread _ := spread_completes known.1 form
    have row : (run.completes control form).2.stack = run.stack := Run.stack_completes _ _ _
    cases opens : form.opens with
    | false => exact obeyed_obeyEnd genuine form
    | true =>
      simp only [if_true]
      split
      · exact .acts row completed
      · refine .opens ⟨form, some control⟩ ⟨opens, ?_⟩ rfl rfl (by rw [row]) completed
        rintro _ ⟨⟩
        exact known

end

/-! ## A comment and what it has opened -/

/-- What is open of a comment carries whether it is kept and was handled, and the comment is cut off only if it may be and
nothing of it is open. -/
structure Owned (c : Nat) (kept handled : Bool) (run : Run State) : Prop where
  inside : c < run.scene.sheet.size
  genuine : ∀ entry ∈ run.stack, Genuine entry
  own : ∀ entry ∈ run.stack, entry.invocation.source = c → entry.invocation.preserve = kept ∧ handled = true
  cut : run.scene.sheet.parent c = none → kept = false ∧ handled = true ∧ ∀ entry ∈ run.stack, entry.invocation.source ≠ c

/-- The comment is cut off also if it may be. -/
structure Settled (c : Nat) (kept handled : Bool) (run : Run State) : Prop extends Owned c kept handled run where
  strips : kept = false → handled = true → (∀ entry ∈ run.stack, entry.invocation.source ≠ c) → run.scene.sheet.parent c = none

section
variable {c : Nat} {kept handled : Bool} {run after : Run State} {front later : List (OpenDirective State)}
  {entry : OpenDirective State}

theorem Owned.of_same (owned : Owned c kept handled run) (row : after.stack = run.stack)
    (size : run.scene.sheet.size ≤ after.scene.sheet.size) (parent : after.scene.sheet.parent c = run.scene.sheet.parent c) :
    Owned c kept handled after where
  inside := Nat.lt_of_lt_of_le owned.inside size
  genuine := row ▸ owned.genuine
  own := row ▸ owned.own
  cut := by
    rw [parent, row]
    exact owned.cut

theorem Settled.of_same (settled : Settled c kept handled run) (row : after.stack = run.stack)
    (size : run.scene.sheet.size ≤ after.scene.sheet.size) (parent : after.scene.sheet.parent c = run.scene.sheet.parent c) :
    Settled c kept handled after where
  toOwned := settled.toOwned.of_same row size parent
  strips := by
    rw [parent, row]
    exact settled.strips

theorem Settled.of_rewritten (settled : Settled c kept handled run) (rewritten : run.Rewritten after) :
    Settled c kept handled after :=
  settled.of_same rewritten.stack (Nat.le_of_eq rewritten.sheet.similar.size.symm) (rewritten.sheet.similar.parent c)

theorem mem_of_mem_others {other : OpenDirective State} (row : run.stack = front ++ entry :: later)
    (member : other ∈ front ++ later) : other ∈ run.stack := by
  rw [row]
  rcases List.mem_append.mp member with before | behind
  · exact List.mem_append_left _ before
  · exact List.mem_append_right _ (List.mem_cons_of_mem _ behind)

theorem size_endDirective (run : Run State) (entry : OpenDirective State) (stack : List (OpenDirective State)) :
    (run.endDirective entry stack).scene.sheet.size = run.scene.sheet.size := by
  unfold Run.endDirective Run.stripSource
  split
  · rfl
  · exact Sheet.size_remove _ _

/-- To close a directive cuts its comment off exactly if nothing else of it is open and it is not kept. -/
theorem parent_endDirective_source (run : Run State) (entry : OpenDirective State) (stack : List (OpenDirective State)) :
    (run.endDirective entry stack).scene.sheet.parent entry.invocation.source =
      if entry.invocation.preserve = false ∧ ∀ other ∈ stack, other.invocation.source ≠ entry.invocation.source then none
      else run.scene.sheet.parent entry.invocation.source := by
  unfold Run.endDirective Run.stripSource
  by_cases stays : entry.invocation.preserve = false ∧ ∀ other ∈ stack, other.invocation.source ≠ entry.invocation.source
  · have gone : stack.any (·.invocation.source == entry.invocation.source) = false := by
      simpa using stays.2
    have strips := stays.1
    simp only [if_pos stays]
    simp only [strips, gone, Bool.or_self, Bool.false_eq_true, if_false, Run.setSheet, Sheet.parent_remove, if_true]
  · have holdsOn : (entry.invocation.preserve || stack.any (·.invocation.source == entry.invocation.source)) = true := by
      cases kept : entry.invocation.preserve with
      | true => rfl
      | false => simpa [kept] using stays
    simp only [holdsOn, if_true, if_neg stays]

theorem Owned.endDirective (owned : Owned c kept handled run) (row : run.stack = front ++ entry :: later) :
    Owned c kept handled (run.endDirective entry (front ++ later)) where
  inside := by
    rw [size_endDirective]
    exact owned.inside
  genuine := by
    rw [Run.stack_endDirective]
    exact fun other member => owned.genuine other (mem_of_mem_others row member)
  own := by
    rw [Run.stack_endDirective]
    exact fun other member => owned.own other (mem_of_mem_others row member)
  cut := by
    have listed : entry ∈ run.stack := by simp [row]
    rw [Run.stack_endDirective]
    intro gone
    by_cases source : entry.invocation.source = c
    · obtain ⟨preserve, done⟩ := owned.own entry listed source
      rw [← source, parent_endDirective_source] at gone
      split at gone
      · rename_i free
        exact ⟨preserve ▸ free.1, done, source ▸ free.2⟩
      · rw [source] at gone
        exact absurd source ((owned.cut gone).2.2 entry listed)
    · rw [parent_endDirective source] at gone
      obtain ⟨strips, done, alone⟩ := owned.cut gone
      exact ⟨strips, done, fun other member => alone other (mem_of_mem_others row member)⟩

theorem Settled.endDirective (settled : Settled c kept handled run) (row : run.stack = front ++ entry :: later) :
    Settled c kept handled (run.endDirective entry (front ++ later)) where
  toOwned := settled.toOwned.endDirective row
  strips := by
    rw [Run.stack_endDirective]
    intro strips done alone
    by_cases source : entry.invocation.source = c
    · have preserve := (settled.own entry (by simp [row]) source).1
      rw [← source, parent_endDirective_source, if_pos ⟨preserve.trans strips, source ▸ alone⟩]
    · rw [parent_endDirective source]
      refine settled.strips strips done ?_
      intro other member
      rw [row, List.mem_append, List.mem_cons] at member
      rcases member with before | rfl | behind
      · exact alone other (List.mem_append_left _ before)
      · exact source
      · exact alone other (List.mem_append_right _ behind)

/-! ## Visits to other nodes -/

/-- To ask an open directive about another node or about a comment moves no comment. -/
theorem parent_ask {node : Nat} {kind : Kind} (elsewhere : node ≠ c ∨ kind = .comment) (genuine : Genuine entry) :
    (Run.ask node kind entry run).1.scene.sheet.parent c = run.scene.sheet.parent c := by
  rcases elsewhere with other | rfl
  · unfold Run.ask
    split
    · rfl
    · rename_i control live
      obtain ⟨member, _⟩ := genuine.control control live
      simp only
      split
      · rename_i wanted
        have entered : (run.call (control.enter node entry.invocation)).2.scene.sheet.parent c = run.scene.sheet.parent c := by
          obtain rfl | rfl | rfl | rfl | rfl := control_cases member
          · rfl
          · simp only [enter_rename, Run.call, enterRename]
            split
            · exact (Sheet.Reworded.setSelector _ _ _).similar.parent c
            · rfl
          · exact (Sheet.parent_remove _ _ _).trans (if_neg (Ne.symm other))
          · cases wanted
          · cases wanted
        split
        · rw [sheet_leave member, entered]
        · exact entered
      · rfl
  · rw [sheet_ask_comment genuine]

theorem Settled.consult {node : Nat} {kind : Kind} (elsewhere : node ≠ c ∨ kind = .comment)
    {entries : List (OpenDirective State)} (settled : Settled c kept handled run) (row : run.stack = front ++ entries) (claimed : Bool) :
    Settled c kept handled (Run.consult node kind front claimed entries run).2 := by
  induction entries generalizing run front claimed with
  | nil =>
    rw [List.append_nil] at row
    exact settled.of_same row.symm (Nat.le_refl _) rfl
  | cons entry rest ih =>
    have genuine := settled.genuine entry (by simp [row])
    have asked : Settled c kept handled (Run.ask node kind entry run).1 :=
      settled.of_same (Run.stack_ask _ _ _ _) (Nat.le_of_eq (calm_ask genuine node kind run).sheet.size.symm)
        (parent_ask elsewhere genuine)
    have same := (Run.stack_ask node kind entry run).trans row
    rw [Run.consult_cons]
    simp only
    split
    · exact ih (asked.endDirective same) (Run.stack_endDirective _ _ _) _
    · exact ih asked (by rw [same, List.append_assoc, List.singleton_append]) _

theorem Settled.gate {node : Nat} (elsewhere : node ≠ c ∨ run.scene.sheet.kind node = .comment)
    (fresh : node ∉ run.scene.handled) (settled : Settled c kept handled run) :
    Settled c kept handled (run.gate node).2 := by
  rw [Run.gate_eq_consult fresh]
  have marked : Settled c kept handled (run.marked node) := settled.of_same rfl (Nat.le_refl _) rfl
  exact marked.consult elsewhere rfl false

/-- What another comment opens makes no difference. -/
theorem Settled.push (settled : Settled c kept handled run) (genuine : Genuine entry) (other : entry.invocation.source ≠ c)
    (row : after.stack = run.stack ++ [entry]) (sheet : run.scene.sheet.Spread after.scene.sheet) :
    Settled c kept handled after := by
  have parent := sheet.parent c settled.inside
  have same : (∀ known ∈ after.stack, known.invocation.source ≠ c) ↔ ∀ known ∈ run.stack, known.invocation.source ≠ c := by
    simp [row, or_imp, forall_and, other]
  refine ⟨⟨Nat.lt_of_lt_of_le settled.inside sheet.size, ?_, ?_, ?_⟩, ?_⟩
  · intro known member
    rw [row, List.mem_append, List.mem_singleton] at member
    rcases member with old | rfl
    · exact settled.genuine known old
    · exact genuine
  · intro known member source
    rw [row, List.mem_append, List.mem_singleton] at member
    rcases member with old | rfl
    · exact settled.own known old source
    · exact absurd source other
  · rw [parent, same]
    exact settled.cut
  · rw [parent, same]
    exact settled.strips

/-- A form of another comment may close what the comment has opened. -/
theorem Settled.obey (settled : Settled c kept handled run) (options : Options) {form : Invocation} (other : form.source ≠ c) :
    Settled c kept handled (Run.obey (engine options).registry run form).2 := by
  cases obeyed_obey settled.genuine options form with
  | acts row sheet => exact settled.of_same row sheet.size (sheet.parent c settled.inside)
  | opens entry genuine own _ row sheet => exact settled.push genuine (own ▸ other) row sheet
  | closes _ entry middle row same sheet outcome =>
    have before : Settled c kept handled middle :=
      settled.of_same same (Nat.le_of_eq (congrArg Sheet.size sheet).symm) (by rw [sheet])
    rw [outcome]
    exact before.endDirective row

theorem Settled.obeyForms (settled : Settled c kept handled run) (options : Options) {node : Nat} (other : node ≠ c)
    (preserve consumed : Bool) (forms : List Directive.Form) :
    Settled c kept handled (Run.obeyForms (engine options).registry node preserve consumed forms run).2 := by
  induction forms generalizing run consumed with
  | nil => exact settled
  | cons form rest ih =>
    have obeyed : Settled c kept handled (Run.obey (engine options).registry run (invocationOf node preserve form)).2 :=
      settled.obey options other
    unfold Run.obeyForms
    simp only
    split
    · exact ih obeyed _
    · exact ih obeyed _
    · exact obeyed

theorem Settled.obeyComment (settled : Settled c kept handled run) (options : Options) {node : Nat} (other : node ≠ c) :
    Settled c kept handled (Run.obeyComment (engine options).registry run node) := by
  unfold Run.obeyComment
  split
  · exact settled
  · rename_i comment found
    have obeyed := settled.obeyForms options other (comment.preserve || !run.scene.options.clean) false comment.forms
    simp only
    split
    · refine obeyed.of_same (Run.stack_stripSource _ _ _) (Nat.le_of_eq (Calm.stripSource _ _ _).sheet.size.symm) ?_
      unfold Run.stripSource
      split
      · rfl
      · exact (Sheet.parent_remove _ _ _).trans (if_neg (Ne.symm other))
    · exact obeyed

/-- A visit to another node may close what the comment has opened, and then cuts it off if it was the last. -/
theorem Settled.visit_of_ne (settled : Settled c kept handled run) (options : Options) {node : Nat} (other : node ≠ c)
    (fresh : node ∉ run.scene.handled) : Settled c kept handled (Run.visit (engine options).registry run node) := by
  have gated := settled.gate (.inl other) fresh
  unfold Run.visit
  simp only
  split
  · split
    · exact gated.obeyComment options other
    · exact gated.of_same rfl (Nat.le_refl _) rfl
    · exact gated.of_rewritten (Run.rewritten_flipParams _ node)
    · exact gated.of_rewritten ((rewritten_flipValue options _ node).trans (Run.rewritten_renameAround _ node))
    · exact gated
  · exact gated

/-! ## The visit to the comment -/

theorem lookup_of_isSupported {inForce : Options} (allowed : AllowsAll inForce) (options : Options) {form : Directive.Form}
    (supported : isSupported form = true) : ∃ control, (engine options).registry.lookup inForce form.name = .found control := by
  rw [lookup_of_enabled (allowed form.name)]
  obtain ⟨control, member, named⟩ := List.any_eq_true.mp supported
  cases found : (plugin (.whole State)).controls.find? (·.name == form.name) with
  | none => exact absurd named (List.find?_eq_none.mp found control member)
  | some first => exact ⟨first, rfl⟩

theorem lookup_of_not_isSupported {inForce : Options} (allowed : AllowsAll inForce) (options : Options) {form : Directive.Form}
    (foreign : isSupported form = false) : (engine options).registry.lookup inForce form.name = .missing := by
  have none : (plugin (.whole State)).controls.find? (·.name == form.name) = none := by
    rw [List.find?_eq_none]
    exact fun control member => by simpa using List.any_eq_false.mp foreign control member
  rw [lookup_of_enabled (allowed form.name), none]

theorem Owned.raise (owned : Owned c kept handled run) : Owned c kept true run :=
  { owned with
    own := fun entry member source => ⟨(owned.own entry member source).1, rfl⟩
    cut := fun gone => ⟨(owned.cut gone).1, rfl, (owned.cut gone).2.2⟩ }

/-- A form of the comment that still stands opens a directive of the comment or closes one. -/
theorem Owned.obey (owned : Owned c kept handled run) (stands : run.scene.sheet.parent c ≠ none) (options : Options)
    {form : Invocation} (preserve : form.preserve = kept) :
    Owned c kept true (Run.obey (engine options).registry run form).2 := by
  cases obeyed_obey owned.genuine options form with
  | acts row sheet => exact owned.raise.of_same row sheet.size (sheet.parent c owned.inside)
  | opens entry genuine source keeps row sheet =>
    refine ⟨Nat.lt_of_lt_of_le owned.inside sheet.size, ?_, ?_, ?_⟩
    · intro known member
      rw [row, List.mem_append, List.mem_singleton] at member
      rcases member with old | rfl
      · exact owned.genuine known old
      · exact genuine
    · intro known member here
      rw [row, List.mem_append, List.mem_singleton] at member
      rcases member with old | rfl
      · exact ⟨(owned.own known old here).1, rfl⟩
      · exact ⟨keeps.trans preserve, rfl⟩
    · intro gone
      exact absurd ((sheet.parent c owned.inside).symm.trans gone) stands
  | closes _ entry middle row same sheet outcome =>
    have before : Owned c kept true middle :=
      owned.raise.of_same same (Nat.le_of_eq (congrArg Sheet.size sheet).symm) (by rw [sheet])
    rw [outcome]
    exact before.endDirective row

end

section
variable {sheet : Sheet} {whole : Item} {c : Nat} {kept consumed : Bool} {run : Run State}

/-- The comment stands as long as forms are left to obey, since one that only closes is the last. -/
theorem owned_obeyForms (holds : sheet.Holds whole) (inside : c < sheet.size) (options : Options)
    (harmless : ∀ inner ∈ described sheet, AllowsAll inner) {earlier : List (OpenDirective State)}
    (during : During sheet (IsLeaf sheet) c earlier run) (unrestricted : Unrestricted run) (owned : Owned c kept consumed run)
    (stands : run.scene.sheet.parent c ≠ none) {forms : List Directive.Form} (known : forms ⊆ formsAt sheet c) :
    (Run.obeyForms (engine options).registry c kept consumed forms run).1 = (consumed || forms.any isSupported) ∧
      Owned c kept (consumed || forms.any isSupported)
        (Run.obeyForms (engine options).registry c kept consumed forms run).2 := by
  induction forms generalizing run consumed with
  | nil =>
    rw [List.any_nil, Bool.or_false]
    exact ⟨rfl, owned⟩
  | cons form rest ih =>
    obtain ⟨listed, others⟩ := List.cons_subset.mp known
    have onward := during.obey holds inside (isLeaf_none sheet) options (invocationOf c kept form) rfl
    have allowed : Unrestricted (Run.obey (engine options).registry run (invocationOf c kept form)).2 :=
      unrestricted.obey (fun entry member => (during.stack entry member).2) options
        fun named opens inner read => harmless inner (mem_described listed opens named read)
    rw [List.any_cons]
    cases supported : isSupported form with
    | false =>
      have missing : (engine options).registry.lookup run.scene.options (invocationOf c kept form).name = .missing :=
        lookup_of_not_isSupported unrestricted.inForce options supported
      obtain ⟨message, outcome⟩ := Run.exists_obey_of_missing missing
      have same : Owned c kept consumed (Run.obey (engine options).registry run (invocationOf c kept form)).2 := by
        rw [outcome]
        exact owned.of_same rfl (Nat.le_refl _) rfl
      rw [Run.obeyForms_of_unknown (by rw [outcome]), Bool.false_or]
      refine ih onward allowed same ?_ others
      rw [outcome]
      exact stands
    | true =>
      obtain ⟨control, found⟩ : ∃ control,
          (engine options).registry.lookup run.scene.options (invocationOf c kept form).name = .found control :=
        lookup_of_isSupported unrestricted.inForce options supported
      have obeyed : Owned c kept true (Run.obey (engine options).registry run (invocationOf c kept form)).2 :=
        owned.obey stands options rfl
      rw [Bool.true_or, Bool.or_true]
      rcases Run.outcome_of_found found with final | ⟨taken, opens⟩
      · rw [Run.obeyForms_of_final final]
        exact ⟨rfl, obeyed⟩
      · have spread : run.scene.sheet.Spread _ := spread_obey_of_opens options (invocationOf c kept form) opens
        rw [Run.obeyForms_of_taken taken]
        refine ih onward allowed obeyed ?_ others
        rw [spread.parent c owned.inside]
        exact stands

/-- Behind its last form a comment of which a form was handled is stripped unless it is kept or something of it is open. -/
theorem Owned.settled (owned : Owned c kept consumed run) :
    Settled c kept consumed (if consumed then run.stripSource c kept else run) := by
  cases consumed with
  | false =>
    simp only [Bool.false_eq_true, if_false]
    exact { owned with strips := fun _ impossible => by cases impossible }
  | true =>
    simp only [if_true]
    unfold Run.stripSource
    split
    · rename_i stays
      refine { owned with strips := fun strips _ alone => ?_ }
      simp only [strips, Bool.false_or, List.any_eq_true, beq_iff_eq] at stays
      obtain ⟨entry, member, own⟩ := stays
      exact absurd own (alone entry member)
    · rename_i goes
      simp only [Bool.or_eq_true, List.any_eq_true, beq_iff_eq, not_or, Bool.not_eq_true, not_exists, not_and] at goes
      have cut : (run.scene.sheet.remove c).parent c = none := by rw [Sheet.parent_remove, if_pos rfl]
      refine ⟨⟨?_, owned.genuine, owned.own, fun _ => ⟨goes.1, rfl, goes.2⟩⟩, fun _ _ _ => cut⟩
      exact Nat.lt_of_lt_of_eq owned.inside (Sheet.size_remove _ _).symm

/-- Before its visit a comment stands and has opened nothing. -/
theorem settled_of_reached {k : Nat} (inside : c < sheet.size) (attached : sheet.parent c ≠ none)
    (reached : Reached sheet (IsLeaf sheet) k run) (ahead : k ≤ c) (kept : Bool) : Settled c kept false run := by
  have stands : run.scene.sheet.parent c ≠ none := by
    rw [show run.scene.sheet.parent c = sheet.parent c from congrArg Node.parent (Sheet.node_congr (reached.ahead c ahead inside))]
    exact attached
  refine ⟨⟨Nat.lt_of_lt_of_le inside reached.size, fun entry member => (reached.stack entry member).2, ?_, ?_⟩, ?_⟩
  · intro entry member source
    exact absurd (source ▸ (reached.stack entry member).1) (Nat.not_lt_of_le ahead)
  · exact fun gone => absurd gone stands
  · exact fun _ impossible => by cases impossible

/-- A visit that the gate lets through obeys the comment as it was read. -/
theorem visit_of_passes (holds : sheet.Holds whole) (inside : c < sheet.size) (comment : sheet.kind c = .comment)
    (reached : Reached sheet (IsLeaf sheet) c run) (options : Options) (passes : (run.gate c).1 = true) :
    Run.visit (engine options).registry run c = Run.obeyComment (engine options).registry (run.gate c).2 c ∧
      (run.gate c).2.scene.sheet.comment? c = sheet.comment? c := by
  have during := reached.gate holds inside (isLeaf_none sheet) (isLeaf_lastBelow holds inside)
  have kind : (run.gate c).2.scene.sheet.kind c = .comment := by
    rw [Sheet.kind_eq_comment_iff] at comment ⊢
    rw [during.comment]
    exact comment
  refine ⟨?_, during.comment⟩
  unfold Run.visit
  simp only [passes, if_true, kind]

section
variable (holds : sheet.Holds whole) (inside : c < sheet.size) (comment : sheet.kind c = .comment)
  (attached : sheet.parent c ≠ none) (reached : Reached sheet (IsLeaf sheet) c run)
include inside comment attached reached

theorem settled_gate_of_reached (kept : Bool) : Settled c kept false (run.gate c).2 := by
  have here : run.scene.sheet.kind c = .comment := by
    rw [Sheet.kind, Sheet.content, reached.node_eq inside]
    exact comment
  exact (settled_of_reached inside attached reached (Nat.le_refl c) kept).gate (.inr here) (reached.not_mem_handled inside)

include holds

/-- The gate may claim the comment, and a comment without directives is left alone. -/
theorem settled_visit_of_idle (options : Options) (kept : Bool)
    (idle : (run.gate c).1 = true → (sheet.comment? c).bind Directive.Comment.parse? = none) :
    Settled c kept false (Run.visit (engine options).registry run c) := by
  have gated := settled_gate_of_reached inside comment attached reached kept
  by_cases passes : (run.gate c).1 = true
  · obtain ⟨visited, same⟩ := visit_of_passes holds inside comment reached options passes
    rw [visited, Run.obeyComment, same, idle passes]
    exact gated
  · unfold Run.visit
    simp only [passes, Bool.false_eq_true, if_false]
    exact gated

/-- The visit to a directive comment that passes the gate: one of its forms is handled if one is supported. -/
theorem settled_visit (options : Options) (harmless : ∀ inner ∈ described sheet, AllowsAll inner)
    (unrestricted : Unrestricted run) (passes : (run.gate c).1 = true) {directive : Directive.Comment}
    (read : (sheet.comment? c).bind Directive.Comment.parse? = some directive) :
    (Run.obeyForms (engine options).registry c (directive.preserve || !run.scene.options.clean) false directive.forms
        (run.gate c).2).1 = directive.forms.any isSupported ∧
      Settled c (directive.preserve || !run.scene.options.clean) (directive.forms.any isSupported)
        (Run.visit (engine options).registry run c) := by
  obtain ⟨visited, same⟩ := visit_of_passes holds inside comment reached options passes
  have steady := steady_gate (reached.not_mem_handled inside) fun entry member => (reached.stack entry member).2
  have during := reached.gate holds inside (isLeaf_none sheet) (isLeaf_lastBelow holds inside)
  have gated := settled_gate_of_reached inside comment attached reached (directive.preserve || !run.scene.options.clean)
  rw [← same] at read
  have known : directive.forms ⊆ formsAt sheet c := by
    rw [forms_eq_formsAt during read]
    exact List.Subset.refl _
  obtain ⟨flag, owned⟩ := owned_obeyForms holds inside options harmless during (unrestricted.of_steady steady) gated.toOwned
    (fun gone => by cases (gated.cut gone).2.1) known
  rw [Bool.false_or] at flag owned
  refine ⟨flag, ?_⟩
  have settled := owned.settled
  rw [visited, Run.obeyComment, read]
  simp only [steady.options, flag]
  exact settled

end
end

/-! ## Whole runs -/

section
variable {sheet : Sheet} {whole : Item} {options : Options} {c : Nat} {kept handled : Bool}

theorem unrestricted_runAt (holds : sheet.Holds whole) (allowed : AllowsAll options)
    (harmless : ∀ inner ∈ described sheet, AllowsAll inner) (step : Nat) : Unrestricted (runAt options sheet step) := by
  induction step with
  | zero => exact unrestricted_start allowed sheet
  | succ step ih =>
    by_cases inside : nodeAt options sheet step < sheet.size
    · rw [runAt_succ inside]
      exact ih.visit holds inside options harmless (reached_runAt holds step)
    · rw [(walk_over inside).2]
      exact ih

theorem Settled.runAt_of_le (holds : sheet.Holds whole) {i j : Nat} (order : i ≤ j)
    (away : ∀ step, i ≤ step → step < j → nodeAt options sheet step ≠ c)
    (settled : Settled c kept handled (runAt options sheet i)) :
    Settled c kept handled (runAt options sheet j) := by
  induction order with
  | refl => exact settled
  | @step j order ih =>
    have earlier := ih fun step low high => away step low (Nat.lt_succ_of_lt high)
    by_cases inside : nodeAt options sheet j < sheet.size
    · rw [runAt_succ inside]
      exact earlier.visit_of_ne options (away j order (Nat.lt_succ_self j)) ((reached_runAt holds j).not_mem_handled inside)
    · rw [(walk_over inside).2]
      exact earlier

theorem eq_of_nodeAt_eq (holds : sheet.Holds whole) (inside : c < sheet.size) {i j : Nat} (one : nodeAt options sheet i = c)
    (two : nodeAt options sheet j = c) : i = j := by
  rcases Nat.lt_trichotomy i j with before | same | behind
  · have := nodeAt_lt holds (one ▸ inside) before
    omega
  · exact same
  · have := nodeAt_lt holds (two ▸ inside) behind
    omega

/-- The comment has passed the gate in one of the first visits, with stripping asked for. -/
def PassedToStrip (options : Options) (sheet : Sheet) (c i : Nat) : Prop :=
  ∃ j < i, nodeAt options sheet j = c ∧ ((runAt options sheet j).gate c).1 = true ∧
    (runAt options sheet j).scene.options.clean = true

/-- At every step a comment is settled, by what it says and by how it was met. -/
theorem exists_settled_runAt (holds : sheet.Holds whole) (inside : c < sheet.size) (comment : sheet.kind c = .comment)
    (attached : sheet.parent c ≠ none) (allowed : AllowsAll options) (harmless : ∀ inner ∈ described sheet, AllowsAll inner)
    (i : Nat) :
    ∃ kept handled, Settled c kept handled (runAt options sheet i) ∧
      (kept = false ∧ handled = true ↔
        ∃ directive, (sheet.comment? c).bind Directive.Comment.parse? = some directive ∧ directive.preserve = false ∧
          directive.forms.any isSupported = true ∧ PassedToStrip options sheet c i) := by
  by_cases visited : ∃ j < i, nodeAt options sheet j = c
  · obtain ⟨j, before, here⟩ := visited
    have reached : Reached sheet (IsLeaf sheet) c (runAt options sheet j) := here ▸ reached_runAt holds j
    have onward : ∀ {kept handled}, Settled c kept handled (Run.visit (engine options).registry (runAt options sheet j) c) →
        Settled c kept handled (runAt options sheet i) := by
      intro kept handled settled
      have next : runAt options sheet (j + 1) = Run.visit (engine options).registry (runAt options sheet j) c := by
        rw [runAt_succ (here ▸ inside), here]
      refine (next ▸ settled).runAt_of_le holds before ?_
      intro step low _ again
      have := eq_of_nodeAt_eq holds inside here again
      omega
    by_cases idle : ((runAt options sheet j).gate c).1 = true → (sheet.comment? c).bind Directive.Comment.parse? = none
    · refine ⟨true, false, onward (settled_visit_of_idle holds inside comment attached reached options true idle), ?_⟩
      simp only [Bool.true_eq_false, Bool.false_eq_true, and_self, false_iff]
      rintro ⟨directive, read, _, _, step, _, again, passes, _⟩
      obtain rfl := eq_of_nodeAt_eq holds inside here again
      rw [idle passes] at read
      cases read
    · push Not at idle
      obtain ⟨passes, some⟩ := idle
      obtain ⟨directive, read⟩ := Option.ne_none_iff_exists'.mp some
      have settled := (settled_visit holds inside comment attached reached options harmless
        (unrestricted_runAt holds allowed harmless j) passes read).2
      refine ⟨_, _, onward settled, ?_⟩
      simp only [Bool.or_eq_false_iff, Bool.not_eq_false']
      constructor
      · rintro ⟨⟨strips, clean⟩, supported⟩
        exact ⟨directive, read, strips, supported, j, before, here, passes, clean⟩
      · rintro ⟨other, same, strips, supported, step, _, again, _, clean⟩
        obtain rfl := eq_of_nodeAt_eq holds inside here again
        obtain rfl := Option.some.inj (read.symm.trans same)
        exact ⟨⟨strips, clean⟩, supported⟩
  · have first : Settled c true false (runAt options sheet 0) :=
      settled_of_reached inside attached (reached_runAt holds 0) (Nat.zero_le c) true
    refine ⟨true, false, first.runAt_of_le holds (Nat.zero_le i) fun step _ early here => visited ⟨step, early, here⟩, ?_⟩
    simp only [Bool.true_eq_false, Bool.false_eq_true, and_self, false_iff]
    rintro ⟨_, _, _, _, step, early, here, _, _⟩
    exact visited ⟨step, early, here⟩

/-- The same, told by the record of visits. -/
theorem passedToStrip_iff (holds : sheet.Holds whole) (inside : c < sheet.size) :
    PassedToStrip options sheet c sheet.size ↔ ∃ front later, (engine options).trail sheet = front ++ c :: later ∧
      let run := front.foldl (Run.visit (engine options).registry) ((engine options).start sheet)
      (run.gate c).1 = true ∧ run.scene.options.clean = true := by
  constructor
  · rintro ⟨j, _, here, passes, clean⟩
    obtain ⟨front, later, split⟩ := List.append_of_mem ((mem_trail_iff_exists holds).mpr ⟨inside, j, here⟩)
    obtain ⟨there, _, earlier⟩ := of_trail_eq holds split
    obtain rfl := eq_of_nodeAt_eq holds inside there here
    refine ⟨front, later, split, ?_⟩
    rw [earlier]
    exact ⟨passes, clean⟩
  · rintro ⟨front, later, split, met⟩
    obtain ⟨here, _, earlier⟩ := of_trail_eq holds split
    simp only [earlier] at met
    have early := min_le_nodeAt options holds front.length
    exact ⟨front.length, by omega, here, met⟩

theorem exists_runAt_eq_take (holds : sheet.Holds whole) (visited : Nat) :
    ∃ i, (((engine options).trail sheet).take visited).foldl (Run.visit (engine options).registry) ((engine options).start sheet) =
      runAt options sheet i := by
  obtain ⟨steps, recorded, _, inside⟩ := exists_trail_eq options holds
  refine ⟨min visited steps, ?_⟩
  rw [← foldl_visit_eq_runAt, recorded, ← List.map_take, List.take_range, List.filter_eq_self.mpr]
  simp only [List.mem_map, List.mem_range, decide_eq_true_eq]
  rintro n ⟨i, early, rfl⟩
  exact inside i (by omega)

end

/-- Which comments of a sheet that was read are cut off by a run in which no options have a blacklist. A directive comment is
cut off in the end exactly if it is not written with `!`, names a directive that is supported, was let through by the gate
while stripping was asked for, and has nothing open at the end. What the run takes as handled is that a form names a
supported directive. All other comments stand where they were read after any number of visits. -/
theorem detached_iff {text : Text} {sheet : Sheet} (parsed : Sheet.parse text = .ok sheet) {options : Options}
    (empty : options.blacklist = []) (within : ∀ inner ∈ described sheet, inner.blacklist = []) {c : Nat}
    (inside : c < sheet.size) (comment : sheet.kind c = .comment) :
    let registry := (engine options).registry
    let first := (engine options).start sheet
    let trail := (engine options).trail sheet
    let last := trail.foldl (Run.visit registry) first
    ((engine options).flip sheet).1 = last.scene.sheet ∧
    (∀ directive, (sheet.comment? c).bind Directive.Comment.parse? = some directive →
      (last.scene.sheet.parent c = none ↔
        directive.preserve = false ∧ (∃ form ∈ directive.forms, isSupported form = true) ∧
        (∃ front later, trail = front ++ c :: later ∧
          let run := front.foldl (Run.visit registry) first
          (run.gate c).1 = true ∧ run.scene.options.clean = true) ∧
        ∀ entry ∈ last.stack, entry.invocation.source ≠ c) ∧
      ∀ front later, trail = front ++ c :: later →
        let run := front.foldl (Run.visit registry) first
        (run.gate c).1 = true →
          ((Run.obeyForms registry c (directive.preserve || !run.scene.options.clean) false directive.forms (run.gate c).2).1 =
            true ↔ ∃ form ∈ directive.forms, isSupported form = true)) ∧
    ((∀ directive, (sheet.comment? c).bind Directive.Comment.parse? = some directive →
        directive.preserve = true ∨ ∀ form ∈ directive.forms, isSupported form = false) →
      ∀ visited, ((trail.take visited).foldl (Run.visit registry) first).scene.sheet.parent c = sheet.parent c) := by
  intro registry first trail last
  obtain ⟨_, _, _, holds⟩ := Sheet.exists_holds_of_parse parsed
  have allowed := allowsAll_of_blacklist_eq_nil empty
  have harmless : ∀ inner ∈ described sheet, AllowsAll inner :=
    fun inner member => allowsAll_of_blacklist_eq_nil (within inner member)
  have attached := Sheet.parent_of_comment parsed inside comment
  have traversed : Run.traverse registry first = last := Run.traverse_eq_foldl_trail registry first
  have ended : last = runAt options sheet sheet.size := traversed.symm.trans (runAt_size options holds).symm
  refine ⟨?_, ?_, ?_⟩
  · rw [← traversed]
    rfl
  · intro directive read
    refine ⟨?_, ?_⟩
    · obtain ⟨kept, handled, settled, met⟩ :=
        exists_settled_runAt holds inside comment attached allowed harmless sheet.size
      rw [← ended] at settled
      rw [passedToStrip_iff holds inside] at met
      constructor
      · intro gone
        obtain ⟨strips, done, alone⟩ := settled.cut gone
        obtain ⟨other, same, plain, supported, passed⟩ := met.mp ⟨strips, done⟩
        obtain rfl := Option.some.inj (read.symm.trans same)
        exact ⟨plain, List.any_eq_true.mp supported, passed, alone⟩
      · rintro ⟨plain, supported, passed, alone⟩
        obtain ⟨strips, done⟩ := met.mpr ⟨directive, read, plain, List.any_eq_true.mpr supported, passed⟩
        exact settled.strips strips done alone
    · intro front later split run passes
      obtain ⟨here, _, earlier⟩ := of_trail_eq holds split
      have reached : Reached sheet (IsLeaf sheet) c (runAt options sheet front.length) := here ▸ reached_runAt holds front.length
      have same : run = runAt options sheet front.length := earlier
      rw [same] at passes ⊢
      rw [(settled_visit holds inside comment attached reached options harmless
        (unrestricted_runAt holds allowed harmless front.length) passes read).1, List.any_eq_true]
  · intro other visited
    obtain ⟨i, same⟩ := @exists_runAt_eq_take sheet _ options holds visited
    obtain ⟨kept, handled, settled, met⟩ := exists_settled_runAt holds inside comment attached allowed harmless i
    change (List.foldl _ ((engine options).start sheet) _).scene.sheet.parent c = _
    rw [same]
    rcases (reached_runAt holds i).parent c inside with stands | gone
    · exact stands
    · obtain ⟨strips, done, _⟩ := settled.cut gone
      obtain ⟨directive, read, plain, supported, _⟩ := met.mp ⟨strips, done⟩
      obtain ⟨form, member, known⟩ := List.any_eq_true.mp supported
      rcases other directive read with kept | foreign
      · rw [plain] at kept
        cases kept
      · rw [foreign form member] at known
        cases known

/-- A comment that opens a block is cut off once the block is closed; one written with an exclamation mark stands. -/
theorem detached_iff_renamed_block :
    ∃ sheet, Sheet.parse ("/*rtl:begin:rename*/.left\x7b\x7d/*rtl:end:rename*/".toList ++
        "/*rtl:options:\x7b\"greedy\":true\x7d*//*!rtl:rename*/.b\x7b\x7d".toList) = .ok sheet ∧
      (∀ inner ∈ described sheet, inner.blacklist = []) ∧ described sheet = [{ greedy := true }] ∧
      let trail := (engine {}).trail sheet
      let after := List.foldl (Run.visit (engine {}).registry) ((engine {}).start sheet)
      ((engine {}).flip sheet).1.parent 1 = none ∧ (∀ entry ∈ (after trail).stack, entry.invocation.source ≠ 1) ∧
      (∃ front later, trail = front ++ 1 :: later ∧
        ((after front).gate 1).1 = true ∧ (after front).scene.options.clean = true) ∧
      ∀ visited, (after (trail.take visited)).scene.sheet.parent 5 = sheet.parent 5 := by
  obtain ⟨sheet, parsed, test⟩ := Sheet.exists_of_readable
    (by decide +kernel : (Sheet.parse ("/*rtl:begin:rename*/.left\x7b\x7d/*rtl:end:rename*/".toList ++
        "/*rtl:options:\x7b\"greedy\":true\x7d*//*!rtl:rename*/.b\x7b\x7d".toList)).toOption.any (fun sheet =>
      decide (described sheet = [{ greedy := true }]) && sheet.size == 7 && decide (sheet.kind 1 = .comment) &&
        decide (sheet.kind 5 = .comment) &&
        (sheet.comment? 1).bind Directive.Comment.parse? == some ⟨false, [⟨"rename".toList, [], true, false⟩]⟩ &&
        (sheet.comment? 5).bind Directive.Comment.parse? == some ⟨true, [⟨"rename".toList, [], true, true⟩]⟩ &&
        ((engine {}).flip sheet).1.parent 1 == none) = true)
  simp only [Bool.and_eq_true, beq_iff_eq, decide_eq_true_eq] at test
  obtain ⟨⟨⟨⟨⟨⟨options, size⟩, opening⟩, kept⟩, first⟩, second⟩, gone⟩ := test
  have within : ∀ inner ∈ described sheet, inner.blacklist = [] := by
    rw [options]
    simp
  have empty : ({} : Options).blacklist = [] := rfl
  obtain ⟨last, strips, _⟩ := detached_iff parsed empty within (by omega : 1 < sheet.size) opening
  obtain ⟨_, _, stands⟩ := detached_iff parsed empty within (by omega : 5 < sheet.size) kept
  refine ⟨sheet, parsed, within, options, gone, ?_⟩
  rw [last] at gone
  obtain ⟨_, _, passed, alone⟩ := ((strips _ first).1).mp gone
  refine ⟨alone, passed, stands ?_⟩
  intro directive read
  rw [second] at read
  cases read
  exact .inl rfl

end Standard
end StyleFlip
