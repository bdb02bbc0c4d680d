import StyleFlip.Proofs.Edits

/-!
Strict renaming. Each rule is looked at when its last declaration has been visited, and so at most once
(`lastDeclaration?_of_isFinalOfKind`). A rule that waits for its pair keeps the selector under which it waits, since only
rules that are looked at later, or the one that is visited, are renamed (`Paired`). So a strict step either lets one more rule
wait or exchanges the selectors of two rules (`StrictStep`), and as long as nothing else renames, a rule that was looked at
has been exchanged with one other or still waits (`Ledger`). Main statement: `strict_rename_exchanges`.
-/
namespace StyleFlip

namespace Sheet

/-- The sheet with the selectors of two rules exchanged. -/
def exchangeSelectors (sheet : Sheet) (first second : NodeId) : Sheet :=
  match sheet.selector? first, sheet.selector? second with
  | some one, some two => (sheet.setSelector first two).setSelector second one
  | _, _ => sheet

theorem selector?_exchangeSelectors {sheet : Sheet} {first second : Nat} (one : (sheet.selector? first).isSome)
    (two : (sheet.selector? second).isSome) (n : Nat) :
    (sheet.exchangeSelectors first second).selector? n = sheet.selector? (Equiv.swap first second n) := by
  obtain ⟨left, one⟩ := Option.isSome_iff_exists.mp one
  obtain ⟨right, two⟩ := Option.isSome_iff_exists.mp two
  simp only [exchangeSelectors, one, two, selector?_setSelector]
  by_cases atSecond : n = second
  · subst atSecond
    rw [Equiv.swap_apply_right, one, if_pos rfl]
    split <;> simp [two]
  · by_cases atFirst : n = first
    · subst atFirst
      rw [Equiv.swap_apply_left, two, if_neg atSecond, if_pos rfl, one]
      rfl
    · rw [Equiv.swap_apply_of_ne_of_ne atFirst atSecond, if_neg atSecond, if_neg atFirst]

/-- The selectors of the first nodes of a sheet. -/
def selectors (sheet : Sheet) (size : Nat) : List Text := (List.range size).filterMap sheet.selector?

theorem selectors_exchangeSelectors {sheet : Sheet} {first second size : Nat} (one : (sheet.selector? first).isSome)
    (two : (sheet.selector? second).isSome) (low : first < size) (high : second < size) :
    ((sheet.exchangeSelectors first second).selectors size).Perm (sheet.selectors size) := by
  have moved : ((List.range size).map (Equiv.swap first second)).Perm (List.range size) := by
    refine (List.perm_ext_iff_of_nodup (List.nodup_range.map (Equiv.injective _)) List.nodup_range).mpr fun n => ?_
    simp only [List.mem_map, List.mem_range]
    constructor
    · rintro ⟨m, inside, rfl⟩
      rw [Equiv.swap_apply_def]
      grind
    · intro inside
      refine ⟨Equiv.swap first second n, ?_, Equiv.swap_apply_self first second n⟩
      rw [Equiv.swap_apply_def]
      grind
  have swapped : (sheet.exchangeSelectors first second).selectors size =
      ((List.range size).map (Equiv.swap first second)).filterMap sheet.selector? := by
    rw [List.filterMap_map, selectors]
    exact List.filterMap_congr fun n _ => selector?_exchangeSelectors one two n
  rw [swapped]
  exact moved.filterMap _

theorem exists_dropWhile_ne_eq {ids : List Nat} {c : Nat} (member : c ∈ ids) :
    ∃ before rest, ids = before ++ c :: rest ∧ ids.dropWhile (· ≠ c) = c :: rest := by
  obtain ⟨before, rest, row, absent⟩ := List.eq_append_cons_of_mem member
  refine ⟨before, rest, row, ?_⟩
  rw [row, List.dropWhile_append_of_pos]
  · simp
  · intro other earlier
    simp only [decide_eq_true_eq]
    rintro rfl
    exact absent earlier

/-- What stands behind `c` in an increasing list is greater. -/
theorem of_mem_tail_dropWhile {ids : List Nat} (increasing : ids.Pairwise (· < ·)) {c n : Nat} (member : c ∈ ids)
    (later : n ∈ (ids.dropWhile (· ≠ c)).tail) : n ∈ ids ∧ c < n := by
  obtain ⟨before, rest, row, dropped⟩ := exists_dropWhile_ne_eq member
  rw [dropped, List.tail_cons] at later
  rw [row] at increasing ⊢
  exact ⟨by simp [later], List.rel_of_pairwise_cons (List.pairwise_append.mp increasing).2.1 later⟩

/-- What is greater than `c` stands behind it if the two are part of an increasing list. -/
theorem mem_tail_dropWhile {ids : List Nat} (keep : Nat → Bool) (increasing : (ids.filter keep).Pairwise (· < ·)) {c n : Nat}
    (first : c ∈ ids.filter keep) (second : n ∈ ids.filter keep) (less : c < n) : n ∈ (ids.dropWhile (· ≠ c)).tail := by
  obtain ⟨before, rest, row, dropped⟩ := exists_dropWhile_ne_eq (List.mem_filter.mp first).1
  obtain ⟨member, kept⟩ := List.mem_filter.mp second
  rw [dropped, List.tail_cons]
  rw [row, List.filter_append, List.filter_cons, if_pos (List.mem_filter.mp first).2] at increasing
  rw [row] at member
  rcases List.mem_append.mp member with early | late
  · have greater := (List.pairwise_append.mp increasing).2.2 n (List.mem_filter.mpr ⟨early, kept⟩) c List.mem_cons_self
    omega
  · exact (List.mem_cons.mp late).resolve_left (by omega)

/-- A declaration that is the last one under its rule in a run was the last one when the sheet was read, since what lies ahead
of it is still in its place. -/
theorem lastDeclaration?_of_isFinalOfKind {sheet now : Sheet} {whole : Item} (holds : sheet.Holds whole)
    (trimmed : Trimmed sheet now) {c : Nat} (inside : c < sheet.size)
    (ahead : ∀ n : Nat, c < n → n < sheet.size → now.nodes[n]? = sheet.nodes[n]?) {rule : Nat}
    (declares : sheet.kind c = .declaration) (above : sheet.parent c = some rule) (attached : now.parent c = some rule)
    (final : now.isFinalOfKind c = true) : Standard.lastDeclaration? sheet rule = some c := by
  refine (Standard.lastDeclaration?_eq_some_iff holds declares).mpr ⟨above, ?_⟩
  have member := holds.mem_children above
  have listed := trimmed.children rule (Nat.lt_trans (holds.of_mem_children member).1 inside)
  simp only [isFinalOfKind, above, attached, Bool.not_eq_eq_eq_not, Bool.not_true, List.any_eq_false] at final ⊢
  intro n later
  obtain ⟨child, behind⟩ := of_mem_tail_dropWhile (holds.children_increasing rule) member later
  obtain ⟨_, bounded, up⟩ := holds.of_mem_children child
  have stays : now.parent n = some rule := by
    rw [← up]
    simp only [Sheet.parent, node_congr (ahead n behind bounded)]
  -- The later sibling stands behind the declaration in the run as well.
  have sibling : n ∈ ((now.children rule).dropWhile (· ≠ c)).tail := by
    refine mem_tail_dropWhile (· < sheet.size) ?_ ?_ ?_ behind
    · rw [listed]
      exact (holds.children_increasing rule).filter _
    · rw [listed]
      exact List.mem_filter.mpr ⟨member, by simpa using attached⟩
    · rw [listed]
      exact List.mem_filter.mpr ⟨child, by simpa using stays⟩
  have other := final n sibling
  rwa [trimmed.kind n bounded, trimmed.kind c inside] at other

end Sheet

namespace Run
variable {σ : Type}

/-! ## One look at a rule -/

/-- The rule around a declaration whose selector is to be flipped behind it, with the selector. -/
def renames? (run : Run σ) (node : NodeId) : Option (NodeId × Text) :=
  if run.scene.options.autoRename && run.flipped == 0 && run.scene.sheet.isFinalOfKind node then
    (run.scene.sheet.parent node).bind fun rule => (run.scene.sheet.selector? rule).map fun selector => (rule, selector)
  else none

theorem renameAround_eq_renameRule (run : Run σ) (node : NodeId) :
    run.renameAround node =
      match run.renames? node with
      | some (rule, selector) => run.renameRule rule selector
      | none => run := by
  unfold renameAround renames?
  generalize run.scene.options.autoRename = wanted
  generalize run.scene.sheet.isFinalOfKind node = final
  cases wanted with
  | false => rfl
  | true =>
    cases run.flipped with
    | succ n => rfl
    | zero =>
      cases run.scene.sheet.parent node with
      | none => cases final <;> rfl
      | some rule =>
        cases found : run.scene.sheet.selector? rule with
        | none => cases final <;> simp [found]
        | some selector => cases final <;> simp [found]

/-- The rule that the next step looks at, with its selector. -/
def triggered? (moment : Moment σ) : Option (NodeId × Text) :=
  match moment.tasks with
  | .rename node :: _ => moment.run.renames? node
  | _ => none

/-- The rules whose selectors the next step exchanges: one that waits, and the one that it looks at. -/
def exchange? (moment : Moment σ) : Option (NodeId × NodeId) :=
  (triggered? moment).bind fun found =>
    if moment.run.scene.options.autoRenameStrict then
      (moment.run.pending.find? fun entry => entry.1 == moment.run.scene.map.apply .selector found.2).map fun entry =>
        (entry.2, found.1)
    else none

/-- What a strict look at a rule does: the rule waits under its selector, or the first rule that waits under the flipped one
is taken out and the two exchange their selectors. -/
inductive StrictStep (run : Run σ) (rule : NodeId) (selector : Text) : Run σ → Prop where
  | waits (alone : ∀ entry ∈ run.pending, entry.1 ≠ run.scene.map.apply .selector selector) :
      StrictStep run rule selector { run with pending := run.pending ++ [(selector, rule)] }
  | exchanges {front later : List (Text × NodeId)} {pair : NodeId}
      (row : run.pending = front ++ (run.scene.map.apply .selector selector, pair) :: later)
      (first : ∀ entry ∈ front, entry.1 ≠ run.scene.map.apply .selector selector) (other : pair ≠ rule) :
      StrictStep run rule selector
        { run.setSheet (run.scene.sheet.exchangeSelectors pair rule) with pending := front ++ later }

theorem strictStep_renameRule {run : Run σ} {rule : NodeId} {selector : Text}
    (strict : run.scene.options.autoRenameStrict = true) (own : run.scene.sheet.selector? rule = some selector)
    (waiting : ∀ entry ∈ run.pending, run.scene.sheet.selector? entry.2 = some entry.1 ∧ entry.2 ≠ rule) :
    StrictStep run rule selector (run.renameRule rule selector) := by
  unfold renameRule
  simp only [strict, if_true]
  split
  · rename_i text pair found
    obtain ⟨fits, front, later, row, others⟩ := List.find?_eq_some_iff_append.mp found
    simp only [beq_iff_eq] at fits
    subst fits
    obtain ⟨waits, other⟩ := waiting _ (by rw [row]; exact List.mem_append_right _ List.mem_cons_self)
    have first : ∀ entry ∈ front, entry.1 ≠ run.scene.map.apply .selector selector := by
      intro entry member
      simpa using others entry member
    have rest : run.pending.eraseP (fun entry => entry.1 == run.scene.map.apply .selector selector) = front ++ later := by
      rw [row, List.eraseP_append_right _ (by simpa using others), List.eraseP_cons_of_pos (by simp)]
    have swapped : run.scene.sheet.exchangeSelectors pair rule =
        (run.scene.sheet.setSelector pair selector).setSelector rule (run.scene.map.apply .selector selector) := by
      simp only [Sheet.exchangeSelectors, waits, own]
    rw [rest, ← swapped]
    exact .exchanges row first other
  · rename_i none
    refine .waits fun entry member => ?_
    simpa using List.find?_eq_none.mp none entry member

end Run

namespace Standard
open Run (Moment Stage StrictStep triggered? exchange?)

/-! ## Rules that wait -/

/-- What a run knows about rules that wait, when the last declarations before number `k` have been looked at. -/
structure Paired (sheet : Sheet) (k : Nat) (run : Run State) : Prop where
  trimmed : sheet.Trimmed run.scene.sheet
  waiting : ∀ entry ∈ run.pending, run.scene.sheet.selector? entry.2 = some entry.1 ∧
    ∃ last, lastDeclaration? sheet entry.2 = some last ∧ last < k
  distinct : (run.pending.map Prod.snd).Nodup
  silent : ∀ warning ∈ run.scene.warnings, warning.kind ≠ .unpaired

section
variable {sheet : Sheet} {whole : Item} {c k : Nat} {run after : Run State}

theorem Paired.later (paired : Paired sheet k run) {later : Nat} (le : k ≤ later) : Paired sheet later run :=
  { paired with
    waiting := by
      intro entry member
      obtain ⟨own, last, found, low⟩ := paired.waiting entry member
      exact ⟨own, last, found, Nat.lt_of_lt_of_le low le⟩ }

theorem trimmed_of_edits (holds : sheet.Holds whole) {renames : Prop} {before now : Sheet} (trimmed : sheet.Trimmed before)
    (edits : Relation.ReflTransGen (Sheet.Edit c renames) before now) : sheet.Trimmed now := by
  induction edits with
  | refl => exact trimmed
  | tail _ edit ih => exact ih.edit holds edit

theorem selector?_of_edits {renames : Prop} {before now : Sheet} (edits : Relation.ReflTransGen (Sheet.Edit c renames) before now)
    {n : Nat} (inside : n < before.size) (elsewhere : renames → n ≠ c) :
    now.selector? n = before.selector? n := by
  have both : now.selector? n = before.selector? n ∧ before.size ≤ now.size := by
    induction edits with
    | refl => exact ⟨rfl, Nat.le_refl _⟩
    | tail _ edit ih =>
      exact ⟨(edit.selector?_eq (Nat.lt_of_lt_of_le inside ih.2) elsewhere).trans ih.1, Nat.le_trans ih.2 edit.size_le⟩
  exact both.1

/-- A step that does not look at a rule leaves those that wait alone. -/
theorem Paired.effect (holds : sheet.Holds whole) (paired : Paired sheet c run) {renames : Prop}
    (effect : Effect c renames run after) : Paired sheet c after where
  trimmed := trimmed_of_edits holds paired.trimmed effect.edits
  waiting := by
    intro entry member
    rw [effect.pending] at member
    obtain ⟨own, last, found, low⟩ := paired.waiting entry member
    obtain ⟨_, before, inside, _⟩ := of_lastDeclaration?_eq_some holds found
    have known : entry.2 < run.scene.sheet.size := Nat.lt_of_lt_of_le (Nat.lt_trans before inside) paired.trimmed.size
    have elsewhere : entry.2 ≠ c := Nat.ne_of_lt (Nat.lt_trans before low)
    exact ⟨(selector?_of_edits effect.edits known fun _ => elsewhere).trans own, last, found, low⟩
  distinct := by
    rw [effect.pending]
    exact paired.distinct
  silent := by
    obtain ⟨raised, warned, kinds⟩ := effect.warnings
    intro warning member
    rw [warned] at member
    rcases List.mem_append.mp member with old | new
    · exact paired.silent warning old
    · exact kinds warning new

/-- The rule that is looked at has its last declaration here, and so has not been looked at before. -/
theorem Paired.of_renames? (holds : sheet.Holds whole) (inside : c < sheet.size) (paired : Paired sheet c run)
    {earlier : List (OpenDirective State)} (during : During sheet (IsLeaf sheet) c earlier run)
    (declares : sheet.kind c = .declaration) {rule : Nat} {selector : Text} (found : run.renames? c = some (rule, selector)) :
    run.scene.sheet.selector? rule = some selector ∧ lastDeclaration? sheet rule = some c ∧
      ∀ entry ∈ run.pending, entry.2 ≠ rule := by
  unfold Run.renames? at found
  split at found
  · rename_i wanted
    simp only [Bool.and_eq_true] at wanted
    simp only [Option.bind_eq_some_iff, Option.map_eq_some_iff] at found
    obtain ⟨_, attached, _, own, same⟩ := found
    cases same
    have above : sheet.parent c = some rule := by
      rcases during.parent c inside with stays | cut
      · rw [← stays]
        exact attached
      · rw [cut] at attached
        cases attached
    have last := Sheet.lastDeclaration?_of_isFinalOfKind holds paired.trimmed inside
      (fun n later => during.ahead n later) declares above attached wanted.2
    refine ⟨own, last, ?_⟩
    rintro entry member rfl
    obtain ⟨_, other, known, low⟩ := paired.waiting entry member
    rw [last] at known
    cases known
    exact Nat.lt_irrefl c low
  · cases found

/-- A strict step keeps what is known about rules that wait. -/
theorem Paired.strictStep (paired : Paired sheet c run) {rule : Nat} {selector : Text}
    (own : run.scene.sheet.selector? rule = some selector) (last : lastDeclaration? sheet rule = some c)
    (fresh : ∀ entry ∈ run.pending, entry.2 ≠ rule) (step : StrictStep run rule selector after) :
    Paired sheet (c + 1) after := by
  have before := paired.later (Nat.le_succ c)
  cases step with
  | waits alone =>
    refine ⟨paired.trimmed, ?_, ?_, paired.silent⟩
    · intro entry member
      rcases List.mem_append.mp member with old | new
      · exact before.waiting entry old
      · rw [List.mem_singleton.mp new]
        exact ⟨own, c, last, Nat.lt_succ_self c⟩
    · rw [List.map_append, List.nodup_append]
      refine ⟨paired.distinct, by simp, ?_⟩
      intro other member
      obtain ⟨entry, old, rfl⟩ := List.mem_map.mp member
      simpa using fresh entry old
  | @exchanges front later pair row first other =>
    have known : ∀ entry ∈ front ++ later, entry ∈ run.pending := by
      intro entry member
      rw [row]
      grind
    have apart := paired.distinct
    rw [row, List.map_append, List.map_cons, List.nodup_middle, ← List.map_append, List.nodup_cons] at apart
    obtain ⟨absent, distinct⟩ := apart
    have waits := (paired.waiting (run.scene.map.apply .selector selector, pair) (by rw [row]; simp)).1
    refine ⟨?_, ?_, distinct, paired.silent⟩
    · simp only [Run.setSheet, Sheet.exchangeSelectors, waits, own]
      exact (paired.trimmed.setSelector _ _).setSelector _ _
    · intro entry member
      obtain ⟨same, rest⟩ := before.waiting entry (known entry member)
      have elsewhere : entry.2 ≠ pair := fun here => absent (here ▸ List.mem_map.mpr ⟨entry, member, rfl⟩)
      refine ⟨?_, rest⟩
      simp only [Run.setSheet]
      rw [Sheet.selector?_exchangeSelectors (by rw [waits]; rfl) (by rw [own]; rfl),
        Equiv.swap_apply_of_ne_of_ne elsewhere (fresh entry (known entry member)), same]

theorem Paired.renameRule (paired : Paired sheet c run) {rule : Nat} {selector : Text}
    (own : run.scene.sheet.selector? rule = some selector) (last : lastDeclaration? sheet rule = some c)
    (fresh : ∀ entry ∈ run.pending, entry.2 ≠ rule) : Paired sheet (c + 1) (run.renameRule rule selector) := by
  cases strict : run.scene.options.autoRenameStrict with
  | true =>
    exact paired.strictStep own last fresh
      (Run.strictStep_renameRule strict own fun entry member => ⟨(paired.waiting entry member).1, fresh entry member⟩)
  | false =>
    -- Alone the rule gets the flipped selector, and no rule that waits is concerned.
    have before := paired.later (Nat.le_succ c)
    simp only [Run.renameRule, strict, Bool.false_eq_true, if_false]
    split
    · exact before
    · refine ⟨paired.trimmed.setSelector _ _, ?_, paired.distinct, paired.silent⟩
      intro entry member
      obtain ⟨same, rest⟩ := before.waiting entry member
      refine ⟨?_, rest⟩
      simp only [Run.setSheet]
      rw [Sheet.selector?_setSelector, if_neg (fresh entry member), same]

/-- What a moment of a run knows about rules that wait; what is to be looked at last is a declaration. -/
structure Sound (sheet : Sheet) (moment : Moment State) : Prop where
  paired : Paired sheet (frontier sheet moment) moment.run
  declares : ∀ node, .rename node ∈ moment.tasks → sheet.kind node = .declaration

theorem not_mem_arrivals (node : Nat) (later : List Nat) : (.rename node : Run.Task State) ∉ later.map .arrive := by
  simp

/-- A look at the selector around a node is planned only if the node is a declaration. -/
theorem Standing.declares_next (options : Options) {later : List Nat} {moment : Moment State}
    (standing : Standing sheet c later moment) (kind : moment.run.scene.sheet.kind c = sheet.kind c)
    (declares : ∀ node, .rename node ∈ moment.tasks → sheet.kind node = .declaration) (node : Nat)
    (task : .rename node ∈ (moment.next (engine options).registry).tasks) : sheet.kind node = .declaration := by
  have behind := not_mem_arrivals node later
  obtain ⟨stage, _, _⟩ := standing
  cases stage with
  | @asking kept entries _ claimed run row =>
    cases entries with
    | nil => cases claimed <;> simp [Moment.next, Run.Task.step] at task
    | cons entry others =>
      simp only [Moment.next, Run.Task.step] at task
      split at task <;> simp at task
  | passing run =>
    simp only [Moment.next, Run.Task.step] at task
    split at task
    · split at task <;> simp at task
    · exact absurd task behind
    · exact absurd task behind
    · rename_i declaration
      simp only [List.cons_append, List.nil_append, List.mem_cons, reduceCtorEq, Run.Task.rename.injEq, false_or, behind,
        or_false] at task
      rw [task, ← kind]
      exact declaration
    · exact absurd task behind
  | obeying preserve consumed forms run =>
    cases forms with
    | nil => exact absurd task behind
    | cons form others =>
      simp only [Moment.next, Run.Task.step] at task
      split at task <;> simp at task
  | flipping run => exact declares node (List.mem_cons_of_mem _ task)
  | naming run => exact absurd task behind

/-- A step looks at a rule whose last declaration is visited, or leaves the rules that wait alone. -/
theorem Sound.step (holds : sheet.Holds whole) (options : Options) {moment : Moment State} (point : Point sheet moment)
    (sound : Sound sheet moment) :
    (triggered? moment = none ∧ Effect (frontier sheet moment) (renameIsOpen moment.run) moment.run
      (moment.next (engine options).registry).run) ∨
    ∃ rule selector, triggered? moment = some (rule, selector) ∧
      (moment.next (engine options).registry).run = moment.run.renameRule rule selector ∧
      moment.run.scene.sheet.selector? rule = some selector ∧
      lastDeclaration? sheet rule = some (frontier sheet moment) ∧
      (∀ entry ∈ moment.run.pending, entry.2 ≠ rule) ∧
      frontier sheet moment < frontier sheet (moment.next (engine options).registry) := by
  have beyond := (point.frontier_next holds options).2
  cases point with
  | @between k later run reached sorted ahead =>
    cases later with
    | nil => exact .inl ⟨rfl, .refl run⟩
    | cons first others =>
      refine .inl ⟨rfl, ?_⟩
      rw [List.map_cons, Run.next_arrive]
      split <;> exact .of_eq rfl rfl rfl
  | @within c later moment standing inside sorted ahead =>
    have paired := sound.paired
    rw [standing.frontier_eq] at paired ⊢
    by_cases last : moment.tasks.head? = some (.rename c)
    · have declares : sheet.kind c = .declaration := sound.declares c (List.mem_of_mem_head? last)
      have look : triggered? moment = moment.run.renames? c ∧
          (moment.next (engine options).registry).run = moment.run.renameAround c := by
        obtain ⟨stage, _, _⟩ := standing
        cases stage <;> cases last
        exact ⟨rfl, rfl⟩
      rw [look.1, look.2, Run.renameAround_eq_renameRule]
      cases found : moment.run.renames? c with
      | none => exact .inl ⟨rfl, .refl _⟩
      | some rename =>
        obtain ⟨rule, selector⟩ := rename
        obtain ⟨earlier, during⟩ := standing.during
        obtain ⟨own, latest, fresh⟩ := paired.of_renames? holds inside during declares found
        exact .inr ⟨rule, selector, rfl, rfl, own, latest, fresh, beyond c last⟩
    · refine .inl ⟨?_, standing.effect options last⟩
      obtain ⟨stage, _, _⟩ := standing
      cases stage with
      | naming run => exact absurd rfl last
      | _ => rfl

theorem Sound.next (holds : sheet.Holds whole) (options : Options) {moment : Moment State} (point : Point sheet moment)
    (sound : Sound sheet moment) : Sound sheet (moment.next (engine options).registry) := by
  refine ⟨?_, ?_⟩
  · rcases sound.step holds options point with ⟨_, effect⟩ | ⟨rule, selector, _, next, own, last, fresh, beyond⟩
    · exact (sound.paired.effect holds effect).later (point.frontier_next holds options).1
    · rw [next]
      exact (sound.paired.renameRule own last fresh).later beyond
  · cases point with
    | @between k later run reached sorted ahead =>
      intro node task
      cases later with
      | nil => cases task
      | cons first others =>
        simp only [List.map_cons, Moment.next, Run.Task.step] at task
        split at task <;> simp at task
    | @within c later moment standing inside sorted ahead =>
      exact standing.declares_next options (sound.paired.trimmed.kind c inside) sound.declares

theorem sound_momentAt (holds : sheet.Holds whole) (options : Options) (time : Nat) :
    Sound sheet ((engine options).momentAt sheet time) := by
  induction time with
  | zero =>
    refine ⟨⟨.refl holds, ?_, List.nodup_nil, ?_⟩, fun node task => absurd task (not_mem_arrivals node _)⟩
    · intro entry member
      cases member
    · intro warning member
      cases member
  | succ time ih => exact ih.next holds options (point_momentAt holds options time)

/-! ## What becomes of the rules that were looked at -/

def unpairedWarning (rule : NodeId) : Warning :=
  { kind := .unpaired, node := rule, message := "renaming skipped due to lack of a matching pair.".toList }

/-- The report tells of the rules that still wait, in their order. -/
theorem Paired.warningsOf_report (paired : Paired sheet k run) :
    run.report.warningsOf .unpaired = run.pending.map fun entry => unpairedWarning entry.2 := by
  have silent : run.scene.warnings.filter (·.kind == .unpaired) = [] := by
    refine List.filter_eq_nil_iff.mpr fun warning member => ?_
    simpa using paired.silent warning member
  have unclosed : (run.stack.map fun entry => (⟨.stillOpen, entry.invocation.source,
      "unclosed directive \"".toList ++ entry.invocation.name ++ "\".".toList⟩ : Warning)).filter (·.kind == .unpaired) = [] := by
    refine List.filter_eq_nil_iff.mpr fun warning member => ?_
    obtain ⟨entry, _, rfl⟩ := List.mem_map.mp member
    simp
  have skipped : (run.pending.map fun entry => unpairedWarning entry.2).filter (·.kind == .unpaired) =
      run.pending.map fun entry => unpairedWarning entry.2 := by
    refine List.filter_eq_self.mpr fun warning member => ?_
    obtain ⟨entry, _, rfl⟩ := List.mem_map.mp member
    rfl
  simp only [Report.warningsOf, Run.report, List.filter_append, silent, unclosed, List.nil_append]
  exact skipped

/-- The books of a run in which only strict steps rename: the rules that were looked at wait or were exchanged once, and all
other rules have kept their selectors. -/
structure Ledger (sheet : Sheet) (moment : Moment State) (looked : List NodeId) (exchanged : List (NodeId × NodeId)) : Prop where
  before : ∀ rule ∈ looked, ∃ last, lastDeclaration? sheet rule = some last ∧ last < frontier sheet moment
  once : looked.Nodup
  account : looked.Perm (moment.run.pending.map Prod.snd ++ exchanged.flatMap fun pair => [pair.1, pair.2])
  kept : ∀ n : Nat, n < sheet.size → (∀ pair ∈ exchanged, n ≠ pair.1 ∧ n ≠ pair.2) →
    moment.run.scene.sheet.selector? n = sheet.selector? n
  swapped : ∀ pair ∈ exchanged, moment.run.scene.sheet.selector? pair.1 = sheet.selector? pair.2 ∧
    moment.run.scene.sheet.selector? pair.2 = sheet.selector? pair.1
  selectors : (moment.run.scene.sheet.selectors sheet.size).Perm (sheet.selectors sheet.size)

section
variable {moment : Moment State} {looked : List NodeId} {exchanged : List (NodeId × NodeId)}

/-- The rule that is looked at is in no book yet. -/
theorem Ledger.not_mem (ledger : Ledger sheet moment looked exchanged) {rule : Nat}
    (last : lastDeclaration? sheet rule = some (frontier sheet moment)) :
    rule ∉ looked ∧ ∀ pair ∈ exchanged, rule ≠ pair.1 ∧ rule ≠ pair.2 := by
  have fresh : rule ∉ looked := by
    intro member
    obtain ⟨other, found, low⟩ := ledger.before rule member
    rw [last] at found
    cases found
    exact Nat.lt_irrefl _ low
  refine ⟨fresh, ?_⟩
  intro pair member
  have both : ∀ n ∈ [pair.1, pair.2], n ∈ looked := fun n part =>
    ledger.account.mem_iff.mpr (List.mem_append_right _ (List.mem_flatMap.mpr ⟨pair, member, part⟩))
  exact ⟨fun same => fresh (same ▸ both pair.1 (by simp)), fun same => fresh (same ▸ both pair.2 (by simp))⟩

/-- A rule that waits was not exchanged. -/
theorem Ledger.ne_of_waiting (ledger : Ledger sheet moment looked exchanged) {rule : Nat}
    (waits : rule ∈ moment.run.pending.map Prod.snd) : ∀ pair ∈ exchanged, rule ≠ pair.1 ∧ rule ≠ pair.2 := by
  have apart := (List.nodup_append.mp (ledger.account.nodup_iff.mp ledger.once)).2.2
  intro pair member
  have both : ∀ n ∈ [pair.1, pair.2], n ∈ exchanged.flatMap fun pair => [pair.1, pair.2] :=
    fun n part => List.mem_flatMap.mpr ⟨pair, member, part⟩
  exact ⟨apart rule waits pair.1 (both pair.1 (by simp)), apart rule waits pair.2 (both pair.2 (by simp))⟩

theorem exchange?_of_waits {rule : NodeId} {selector : Text} (look : triggered? moment = some (rule, selector))
    (alone : ∀ entry ∈ moment.run.pending, entry.1 ≠ moment.run.scene.map.apply .selector selector) : exchange? moment = none := by
  have none : moment.run.pending.find? (fun entry => entry.1 == moment.run.scene.map.apply .selector selector) = none :=
    List.find?_eq_none.mpr fun entry member => by simpa using alone entry member
  simp only [exchange?, look, Option.bind_some, none, Option.map_none, ite_self]

theorem exchange?_of_exchanges {rule pair : NodeId} {selector : Text} {front later : List (Text × NodeId)}
    (look : triggered? moment = some (rule, selector)) (strict : moment.run.scene.options.autoRenameStrict = true)
    (row : moment.run.pending = front ++ (moment.run.scene.map.apply .selector selector, pair) :: later)
    (first : ∀ entry ∈ front, entry.1 ≠ moment.run.scene.map.apply .selector selector) :
    exchange? moment = some (pair, rule) := by
  have found : moment.run.pending.find? (fun entry => entry.1 == moment.run.scene.map.apply .selector selector) =
      some (moment.run.scene.map.apply .selector selector, pair) := by
    refine List.find?_eq_some_iff_append.mpr ⟨by simp, front, later, row, ?_⟩
    simpa using first
  simp only [exchange?, look, Option.bind_some, found, strict, if_true, Option.map_some]

theorem Ledger.lt_size (holds : sheet.Holds whole) (ledger : Ledger sheet moment looked exchanged) {pair : NodeId × NodeId}
    (member : pair ∈ exchanged) {n : Nat} (part : n ∈ [pair.1, pair.2]) : n < sheet.size := by
  have known : n ∈ looked :=
    ledger.account.mem_iff.mpr (List.mem_append_right _ (List.mem_flatMap.mpr ⟨pair, member, part⟩))
  obtain ⟨last, found, _⟩ := ledger.before n known
  obtain ⟨_, less, inside, _⟩ := of_lastDeclaration?_eq_some holds found
  exact Nat.lt_trans less inside

section
variable {next : Moment State} (onward : frontier sheet moment ≤ frontier sheet next)
  (ledger : Ledger sheet moment looked exchanged)
include onward ledger

theorem Ledger.before_later : ∀ rule ∈ looked, ∃ last, lastDeclaration? sheet rule = some last ∧ last < frontier sheet next := by
  intro rule member
  obtain ⟨last, found, low⟩ := ledger.before rule member
  exact ⟨last, found, Nat.lt_of_lt_of_le low onward⟩

/-- A step that looks at no rule and changes no selector leaves the books as they are. -/
theorem Ledger.stays (holds : sheet.Holds whole) (pending : next.run.pending = moment.run.pending)
    (same : ∀ n : Nat, n < sheet.size → next.run.scene.sheet.selector? n = moment.run.scene.sheet.selector? n) :
    Ledger sheet next looked exchanged where
  before := ledger.before_later onward
  once := ledger.once
  account := by
    rw [pending]
    exact ledger.account
  kept := fun n inside apart => (same n inside).trans (ledger.kept n inside apart)
  swapped := by
    intro pair member
    rw [same _ (ledger.lt_size holds member (by simp)), same _ (ledger.lt_size holds member (by simp))]
    exact ledger.swapped pair member
  selectors := by
    have equal : next.run.scene.sheet.selectors sheet.size = moment.run.scene.sheet.selectors sheet.size :=
      List.filterMap_congr fun n member => same n (List.mem_range.mp member)
    rw [equal]
    exact ledger.selectors

/-- A rule that is looked at and waits comes into the books. -/
theorem Ledger.waits {rule : Nat} {selector : Text} (last : lastDeclaration? sheet rule = some (frontier sheet moment))
    (beyond : frontier sheet moment < frontier sheet next)
    (run : next.run = { moment.run with pending := moment.run.pending ++ [(selector, rule)] }) :
    Ledger sheet next (looked ++ [rule]) exchanged where
  before := by
    intro other member
    rcases List.mem_append.mp member with old | new
    · exact ledger.before_later onward other old
    · rw [List.mem_singleton.mp new]
      exact ⟨_, last, beyond⟩
  once := by
    rw [List.nodup_append]
    refine ⟨ledger.once, by simp, ?_⟩
    intro other member
    simp only [List.mem_singleton, forall_eq]
    rintro rfl
    exact (ledger.not_mem last).1 member
  account := by
    rw [run, List.map_append, List.append_assoc]
    refine (ledger.account.append_right [rule]).trans ?_
    rw [List.append_assoc]
    exact List.perm_append_comm.append_left _
  kept := by
    rw [run]
    exact ledger.kept
  swapped := by
    rw [run]
    exact ledger.swapped
  selectors := by
    rw [run]
    exact ledger.selectors

/-- Two rules that exchange their selectors come into the books as a pair. -/
theorem Ledger.exchanges (holds : sheet.Holds whole) {rule pair : Nat} {selector text : Text}
    {front later : List (Text × NodeId)}
    (own : moment.run.scene.sheet.selector? rule = some selector) (waiting : moment.run.scene.sheet.selector? pair = some text)
    (last : lastDeclaration? sheet rule = some (frontier sheet moment)) (beyond : frontier sheet moment < frontier sheet next)
    (row : moment.run.pending = front ++ (text, pair) :: later)
    (run : next.run = { moment.run.setSheet (moment.run.scene.sheet.exchangeSelectors pair rule) with pending := front ++ later }) :
    Ledger sheet next (looked ++ [rule]) (exchanged ++ [(pair, rule)]) := by
  obtain ⟨fresh, unpaired⟩ := ledger.not_mem last
  have waits : pair ∈ moment.run.pending.map Prod.snd := by
    rw [row]
    simp
  have alone := ledger.ne_of_waiting waits
  have known : pair ∈ looked := ledger.account.mem_iff.mpr (List.mem_append_left _ waits)
  have inside : pair < sheet.size ∧ rule < sheet.size := by
    obtain ⟨_, found, _⟩ := ledger.before pair known
    obtain ⟨_, one, two, _⟩ := of_lastDeclaration?_eq_some holds found
    obtain ⟨_, three, four, _⟩ := of_lastDeclaration?_eq_some holds last
    exact ⟨Nat.lt_trans one two, Nat.lt_trans three four⟩
  have selectors : ∀ n, next.run.scene.sheet.selector? n = moment.run.scene.sheet.selector? (Equiv.swap pair rule n) := by
    intro n
    rw [run]
    exact Sheet.selector?_exchangeSelectors (by rw [waiting]; rfl) (by rw [own]; rfl) n
  have others : ∀ n, n ≠ pair → n ≠ rule → next.run.scene.sheet.selector? n = moment.run.scene.sheet.selector? n := by
    intro n first second
    rw [selectors, Equiv.swap_apply_of_ne_of_ne first second]
  refine ⟨?_, ?_, ?_, ?_, ?_, ?_⟩
  · intro other member
    rcases List.mem_append.mp member with old | new
    · exact ledger.before_later onward other old
    · rw [List.mem_singleton.mp new]
      exact ⟨_, last, beyond⟩
  · rw [List.nodup_append]
    refine ⟨ledger.once, by simp, ?_⟩
    intro other member
    simp only [List.mem_singleton, forall_eq]
    rintro rfl
    exact fresh member
  · refine List.perm_iff_count.mpr fun n => ?_
    have counted := ledger.account.count_eq n
    rw [row] at counted
    rw [run]
    simp only [List.map_append, List.map_cons, List.count_append, List.count_cons, List.flatMap_append, List.flatMap_cons,
      List.flatMap_nil, List.count_nil] at counted ⊢
    omega
  · intro n low apart
    have both := apart (pair, rule) (by simp)
    rw [others n both.1 both.2]
    exact ledger.kept n low fun other member => apart other (List.mem_append_left _ member)
  · intro other member
    rcases List.mem_append.mp member with old | new
    · rw [others _ (Ne.symm (alone other old).1) (Ne.symm (unpaired other old).1),
        others _ (Ne.symm (alone other old).2) (Ne.symm (unpaired other old).2)]
      exact ledger.swapped other old
    · rw [List.mem_singleton.mp new, selectors, selectors, Equiv.swap_apply_left, Equiv.swap_apply_right]
      exact ⟨ledger.kept rule inside.2 unpaired, ledger.kept pair inside.1 alone⟩
  · rw [run]
    exact (Sheet.selectors_exchangeSelectors (by rw [waiting]; rfl) (by rw [own]; rfl) inside.1 inside.2).trans ledger.selectors

end

/-- Each step keeps the books. -/
theorem Ledger.next (holds : sheet.Holds whole) (options : Options) (point : Point sheet moment) (sound : Sound sheet moment)
    (strict : moment.run.scene.options.autoRenameStrict = true) (still : ¬ renameIsOpen moment.run)
    (ledger : Ledger sheet moment looked exchanged) :
    Ledger sheet (moment.next (engine options).registry) (looked ++ ((triggered? moment).map Prod.fst).toList)
      (exchanged ++ (exchange? moment).toList) := by
  have onward := (point.frontier_next holds options).1
  rcases sound.step holds options point with ⟨look, effect⟩ | ⟨rule, selector, look, next, own, last, fresh, beyond⟩
  · have same : ∀ n : Nat, n < sheet.size →
        (moment.next (engine options).registry).run.scene.sheet.selector? n = moment.run.scene.sheet.selector? n := fun n inside =>
      selector?_of_edits effect.edits (Nat.lt_of_lt_of_le inside sound.paired.trimmed.size) fun renames => absurd renames still
    have quiet : exchange? moment = none := by simp only [exchange?, look, Option.bind_none]
    simpa [look, quiet] using ledger.stays onward holds effect.pending same
  · have waiting := fun entry member => (sound.paired.waiting entry member).1
    have step := Run.strictStep_renameRule strict own fun entry member => ⟨waiting entry member, fresh entry member⟩
    generalize taken : moment.run.renameRule rule selector = after at step next
    cases step with
    | waits alone =>
      rw [look, exchange?_of_waits look alone]
      simpa using ledger.waits onward last beyond next
    | @exchanges front later pair row first other =>
      have member : (moment.run.scene.map.apply .selector selector, pair) ∈ moment.run.pending := by
        rw [row]
        simp
      rw [look, exchange?_of_exchanges look strict row first]
      simpa using ledger.exchanges onward holds own (waiting _ member) last beyond row next

/-- A rule that occurs once in some exchanges has part in one of them. -/
theorem filter_eq_singleton {exchanged : List (NodeId × NodeId)}
    (distinct : (exchanged.flatMap fun pair => [pair.1, pair.2]).Nodup) {pair : NodeId × NodeId} (member : pair ∈ exchanged)
    {rule : NodeId} (part : rule ∈ [pair.1, pair.2]) :
    exchanged.filter (fun pair => pair.1 == rule || pair.2 == rule) = [pair] ∧ pair.1 ≠ pair.2 := by
  induction exchanged with
  | nil => cases member
  | cons first rest ih =>
    rw [List.flatMap_cons] at distinct
    obtain ⟨own, others, apart⟩ := List.nodup_append.mp distinct
    rcases List.mem_cons.mp member with rfl | later
    · have none : rest.filter (fun pair => pair.1 == rule || pair.2 == rule) = [] := by
        refine List.filter_eq_nil_iff.mpr fun other inRest => ?_
        have one := apart rule part other.1 (List.mem_flatMap.mpr ⟨other, inRest, by simp⟩)
        have two := apart rule part other.2 (List.mem_flatMap.mpr ⟨other, inRest, by simp⟩)
        simpa using ⟨Ne.symm one, Ne.symm two⟩
      rw [List.filter_cons, none]
      exact ⟨by grind, by simpa using own⟩
    · have other : ∀ n ∈ [first.1, first.2], n ≠ rule := fun n here =>
        apart n here rule (List.mem_flatMap.mpr ⟨pair, later, part⟩)
      rw [List.filter_cons, if_neg (by simpa using other)]
      exact ih others later

/-- A rule that was looked at still waits under its own selector, or was exchanged with one other rule. -/
theorem Ledger.fate (holds : sheet.Holds whole) (ledger : Ledger sheet moment looked exchanged) {rule : Nat} (known : rule ∈ looked) :
    (moment.run.pending.map Prod.snd).count rule = 1 ∧
        exchanged.filter (fun pair => pair.1 == rule || pair.2 == rule) = [] ∧
        moment.run.scene.sheet.selector? rule = sheet.selector? rule ∨
      (moment.run.pending.map Prod.snd).count rule = 0 ∧
        ∃ pair, exchanged.filter (fun pair => pair.1 == rule || pair.2 == rule) = [pair] ∧ pair.1 ≠ pair.2 ∧
          moment.run.scene.sheet.selector? pair.1 = sheet.selector? pair.2 ∧
          moment.run.scene.sheet.selector? pair.2 = sheet.selector? pair.1 := by
  have distinct := ledger.account.nodup_iff.mp ledger.once
  obtain ⟨first, second, apart⟩ := List.nodup_append.mp distinct
  rcases List.mem_append.mp (ledger.account.mem_iff.mp known) with waits | paired
  · have alone := ledger.ne_of_waiting waits
    obtain ⟨last, found, _⟩ := ledger.before rule known
    obtain ⟨_, less, inside, _⟩ := of_lastDeclaration?_eq_some holds found
    refine .inl ⟨List.count_eq_one_of_mem first waits, ?_, ledger.kept rule (Nat.lt_trans less inside) alone⟩
    refine List.filter_eq_nil_iff.mpr fun pair member => ?_
    simpa using ⟨Ne.symm (alone pair member).1, Ne.symm (alone pair member).2⟩
  · refine .inr ⟨List.count_eq_zero_of_not_mem fun waits => apart rule waits rule paired rfl, ?_⟩
    obtain ⟨pair, member, part⟩ := List.mem_flatMap.mp paired
    obtain ⟨only, different⟩ := filter_eq_singleton second member part
    exact ⟨pair, only, different, ledger.swapped pair member⟩

end

/-- The rules that a run has looked at before the given time. -/
def lookedAt (options : Options) (sheet : Sheet) (time : Nat) : List NodeId :=
  (List.range time).filterMap fun earlier => (triggered? ((engine options).momentAt sheet earlier)).map Prod.fst

/-- The exchanges of selectors before the given time. -/
def exchanges (options : Options) (sheet : Sheet) (time : Nat) : List (NodeId × NodeId) :=
  (List.range time).filterMap fun earlier => exchange? ((engine options).momentAt sheet earlier)

theorem filterMap_range_succ {α : Type} (found? : Nat → Option α) (time : Nat) :
    (List.range (time + 1)).filterMap found? = (List.range time).filterMap found? ++ (found? time).toList := by
  rw [List.range_succ, List.filterMap_append]
  cases here : found? time <;> simp [here]

/-- As long as all looks are strict and no `rename` is open, the books are kept. -/
theorem ledger_momentAt (holds : sheet.Holds whole) {options : Options} {time : Nat}
    (strict : ∀ earlier < time, ((engine options).momentAt sheet earlier).run.scene.options.autoRenameStrict = true)
    (still : ∀ earlier < time, ¬ renameIsOpen ((engine options).momentAt sheet earlier).run) :
    Ledger sheet ((engine options).momentAt sheet time) (lookedAt options sheet time) (exchanges options sheet time) := by
  induction time with
  | zero =>
    refine ⟨?_, List.nodup_nil, .refl _, fun _ _ _ => rfl, ?_, .refl _⟩
    · intro rule member
      cases member
    · intro pair member
      cases member
  | succ time ih =>
    have before := ih (fun earlier less => strict earlier (Nat.lt_succ_of_lt less))
      (fun earlier less => still earlier (Nat.lt_succ_of_lt less))
    have next := before.next holds options (point_momentAt holds options time) (sound_momentAt holds options time)
      (strict time (Nat.lt_succ_self time)) (still time (Nat.lt_succ_self time))
    rw [lookedAt, exchanges, filterMap_range_succ, filterMap_range_succ]
    exact next

/-- Renaming in strict mode only ever exchanges selectors. At every moment of a run each rule that waits does so under its
present selector, and none waits twice; a strict step lets the rule that it looks at wait, or exchanges its selector with that
of one rule that waits under the flipped one. At the end the rules that still wait are warned about in their order. So as long
as all looks are strict and the sheet has no `rename`, the selectors of the sheet are permuted, and each rule that was looked
at is in one exchange, or keeps its selector and gets one warning. -/
theorem strict_rename_exchanges {text : Text} {sheet : Sheet} (parsed : Sheet.parse text = .ok sheet) (options : Options) :
    (∃ last, ((engine options).momentAt sheet last).tasks = [] ∧
      ((engine options).flip sheet).1 = ((engine options).momentAt sheet last).run.scene.sheet ∧
      ((engine options).flip sheet).2.1 = ((engine options).momentAt sheet last).run.report) ∧
    ∀ time,
      let run := ((engine options).momentAt sheet time).run
      let after := ((engine options).momentAt sheet (time + 1)).run
      (∀ entry ∈ run.pending, run.scene.sheet.selector? entry.2 = some entry.1) ∧
      (run.pending.map Prod.snd).Nodup ∧
      run.report.warningsOf .unpaired = (run.pending.map fun entry => unpairedWarning entry.2) ∧
      (∀ rule selector, triggered? ((engine options).momentAt sheet time) = some (rule, selector) →
        run.scene.sheet.selector? rule = some selector ∧
        (run.scene.options.autoRenameStrict = true → StrictStep run rule selector after) ∧
        (run.scene.options.autoRenameStrict = false → after.pending = run.pending)) ∧
      (triggered? ((engine options).momentAt sheet time) = none → after.pending = run.pending) ∧
      ((∀ earlier < time, ((engine options).momentAt sheet earlier).run.scene.options.autoRenameStrict = true) →
        (∀ node < sheet.size, ∀ form ∈ formsAt sheet node, form.name ≠ "rename".toList) →
          (run.scene.sheet.selectors sheet.size).Perm (sheet.selectors sheet.size) ∧
          ∀ rule ∈ lookedAt options sheet time,
            let own := (exchanges options sheet time).filter fun pair => pair.1 == rule || pair.2 == rule
            (run.report.warningsOf .unpaired).countP (·.node == rule) = 1 ∧ own = [] ∧
                run.scene.sheet.selector? rule = sheet.selector? rule ∨
              (run.report.warningsOf .unpaired).countP (·.node == rule) = 0 ∧ ∃ pair, own = [pair] ∧ pair.1 ≠ pair.2 ∧
                run.scene.sheet.selector? pair.1 = sheet.selector? pair.2 ∧
                run.scene.sheet.selector? pair.2 = sheet.selector? pair.1) := by
  obtain ⟨_, _, _, holds⟩ := Sheet.exists_holds_of_parse parsed
  refine ⟨?_, ?_⟩
  · obtain ⟨last, ended⟩ := (engine options).exists_momentAt_eq_traverse sheet
    refine ⟨last, ?_⟩
    rw [ended]
    exact ⟨rfl, rfl, rfl⟩
  · intro time
    have point := point_momentAt holds options time
    have sound := sound_momentAt holds options time
    have reported := sound.paired.warningsOf_report
    refine ⟨fun entry member => (sound.paired.waiting entry member).1, sound.paired.distinct, reported, ?_, ?_, ?_⟩
    · intro rule selector look
      rcases sound.step holds options point with ⟨none, _⟩ | ⟨_, _, found, next, own, _, fresh, _⟩
      · rw [look] at none
        cases none
      · rw [look] at found
        cases found
        refine ⟨own, ?_, ?_⟩
        · intro strict
          change StrictStep _ rule selector (Moment.next (engine options).registry ((engine options).momentAt sheet time)).run
          rw [next]
          exact Run.strictStep_renameRule strict own fun entry member =>
            ⟨(sound.paired.waiting entry member).1, fresh entry member⟩
        · intro lenient
          change (Moment.next (engine options).registry ((engine options).momentAt sheet time)).run.pending = _
          rw [next]
          simp only [Run.renameRule, lenient, Bool.false_eq_true, if_false]
          split <;> rfl
    · intro none
      rcases sound.step holds options point with ⟨_, effect⟩ | ⟨_, _, found, _⟩
      · exact effect.pending
      · rw [none] at found
        cases found
    · intro strict free
      have still : ∀ earlier < time, ¬ renameIsOpen ((engine options).momentAt sheet earlier).run := by
        rintro earlier _ ⟨entry, isOpen, named, _⟩
        obtain ⟨node, inside, form, member, same⟩ := exists_form_of_mem_stack holds isOpen
        exact free node inside form member (same ▸ named)
      have ledger := ledger_momentAt holds strict still
      refine ⟨ledger.selectors, fun rule known => ?_⟩
      have counted : (((engine options).momentAt sheet time).run.report.warningsOf .unpaired).countP (·.node == rule) =
          (((engine options).momentAt sheet time).run.pending.map Prod.snd).count rule := by
        rw [reported, List.countP_map, List.count, List.countP_map]
        rfl
      rw [counted]
      exact ledger.fate holds known

end

/-- Two rules carry each other's flipped selector and a third finds no pair. -/
theorem strict_rename_exchanges_pair :
    ∃ sheet, Sheet.parse ".left{a:b}.right{a:b}.x{a:b}".toList = .ok sheet ∧
      let options : Options := { autoRename := true, autoRenameStrict := true }
      let run := ((engine options).momentAt sheet 27).run
      (∀ earlier < 27, ((engine options).momentAt sheet earlier).run.scene.options.autoRenameStrict = true) ∧
      (∀ node < sheet.size, ∀ form ∈ formsAt sheet node, form.name ≠ "rename".toList) ∧
      lookedAt options sheet 27 = [1, 3, 5] ∧ exchanges options sheet 27 = [(1, 3)] ∧
      (run.scene.sheet.selectors sheet.size).Perm (sheet.selectors sheet.size) ∧
      run.scene.sheet.selector? 1 = sheet.selector? 3 ∧ run.scene.sheet.selector? 3 = sheet.selector? 1 ∧
      run.scene.sheet.selector? 5 = sheet.selector? 5 ∧ (run.report.warningsOf .unpaired).countP (·.node == 5) = 1 := by
  let options : Options := { autoRename := true, autoRenameStrict := true }
  let map : StringMap := ⟨defaultStringMap.map fun entry => (entry, entry.swaps false)⟩
  obtain ⟨sheet, parsed, test⟩ := Sheet.exists_of_readable
    (by decide +kernel : (Sheet.parse ".left{a:b}.right{a:b}.x{a:b}".toList).toOption.any (fun sheet =>
      let first : Run State := { store := {}, scene := { sheet, options, map } }
      let moment := Run.courseAt (engine options).registry first [0, 1, 2, 3, 4, 5, 6]
      Run.trail (engine options).registry first == [0, 1, 2, 3, 4, 5, 6] &&
        (List.range 27).all (fun time => (moment time).run.scene.options.autoRenameStrict) &&
        (List.range sheet.size).all (fun node => (formsAt sheet node).isEmpty) &&
        ((List.range 27).filterMap fun time => (triggered? (moment time)).map Prod.fst) == [1, 3, 5] &&
        ((List.range 27).filterMap fun time => exchange? (moment time)) == [(1, 3)]) = true)
  simp only [Bool.and_eq_true, beq_iff_eq, List.all_eq_true, List.mem_range, List.isEmpty_iff] at test
  obtain ⟨⟨⟨⟨nodes, strict⟩, free⟩, looked⟩, exchanged⟩ := test
  have begun : (engine options).start sheet = { store := {}, scene := { sheet, options, map } } := start_of_default rfl sheet
  have course : ∀ time, (engine options).momentAt sheet time = Run.courseAt (engine options).registry
      { store := {}, scene := { sheet, options, map } } [0, 1, 2, 3, 4, 5, 6] time := by
    intro time
    rw [Engine.momentAt, Engine.trail, begun, nodes]
  simp only [← course] at strict looked exchanged
  have bare : ∀ node < sheet.size, ∀ form ∈ formsAt sheet node, form.name ≠ "rename".toList := by
    intro node inside form member
    rw [free node inside] at member
    cases member
  obtain ⟨_, along⟩ := strict_rename_exchanges parsed options
  obtain ⟨permuted, fate⟩ := (along 27).2.2.2.2.2 strict bare
  simp only [show lookedAt options sheet 27 = [1, 3, 5] from looked,
    show exchanges options sheet 27 = [(1, 3)] from exchanged] at fate
  -- The first two rules form the pair, and the third is left alone with its warning.
  rcases fate 1 (by simp) with ⟨_, none, _⟩ | ⟨_, pair, only, _, forth, back⟩
  · cases none
  rcases fate 5 (by simp) with ⟨warned, _, own⟩ | ⟨_, other, found, _⟩
  · obtain rfl : (1, 3) = pair := List.singleton_inj.mp only
    exact ⟨sheet, parsed, strict, bare, looked, exchanged, permuted, forth, back, own, warned⟩
  · cases found

end Standard
end StyleFlip
