import StyleFlip.Proofs.Edits

/-!
Which nodes a run of the standard engine visits. It visits the nodes of a sheet that was read in document order, each at
most once, and passes over exactly those below a node that was cut off when its own visit ended (`mem_trail_iff`). What is
cut off elsewhere or comes in meanwhile makes no difference: nodes that come in take numbers behind those of the sheet
(`Sheet.Inserted`), are never asked about and stay as they came in. Main statement: `trail_of_parse`.
-/
namespace StyleFlip

namespace Sheet

/-! ## Ancestors -/

/-- A node stands above another one if it is its parent or stands above its parent. -/
inductive Above (sheet : Sheet) (above : NodeId) : NodeId → Prop where
  | parent {node : NodeId} (attached : sheet.parent node = some above) : Above sheet above node
  | step {node middle : NodeId} (attached : sheet.parent node = some middle) (further : Above sheet above middle) :
      Above sheet above node

section
variable {sheet : Sheet} {whole : Item} (holds : sheet.Holds whole)
include holds

/-- A node lies in the stretch of its parent. -/
theorem Holds.lt_stop_of_parent {above n : Nat} (attached : sheet.parent n = some above) : above < n ∧ n < sheet.stop above := by
  have listed := holds.mem_children attached
  obtain ⟨later, inside, _⟩ := holds.of_mem_children listed
  obtain ⟨_, item, stored, room, _⟩ := holds.exists_stores (Nat.lt_trans later inside)
  rw [stored.children_eq] at listed
  obtain ⟨inner, _, _, bound⟩ := stored.below.of_mem_places listed
  have positive := inner.count_pos
  have size := count_eq item
  rw [stored.stop_eq room]
  omega

/-- The nodes above a node are those whose stretches it lies in. -/
theorem Holds.above_iff {above n : Nat} (inside : n < sheet.size) : sheet.Above above n ↔ above < n ∧ n < sheet.stop above := by
  constructor
  · intro chain
    induction chain with
    | parent attached => exact holds.lt_stop_of_parent attached
    | @step node middle attached _ ih =>
      obtain ⟨later, within⟩ := holds.lt_stop_of_parent attached
      obtain ⟨low, high⟩ := ih (Nat.lt_trans later inside)
      have nested := holds.stop_le_stop (Nat.lt_trans low (Nat.lt_trans later inside)) (Nat.le_of_lt low) high
      omega
  · rintro ⟨low, high⟩
    induction n using Nat.strong_induction_on with
    | _ n ih =>
      obtain ⟨_, item, stored, room, _⟩ := holds.exists_stores (Nat.lt_trans low inside)
      rw [stored.stop_eq room] at high
      obtain ⟨middle, inner, found, _, lowest, earlier, _⟩ := stored.exists_below n low high
      by_cases next : above = middle
      · exact .parent (next ▸ found.parent_eq)
      · refine .step found.parent_eq (ih middle earlier (Nat.lt_trans earlier inside) (Nat.lt_of_le_of_ne lowest next) ?_)
        rw [stored.stop_eq room]
        exact Nat.lt_trans earlier high

/-- Document order is the order of the numbers. -/
theorem Holds.preorder_root : sheet.preorder root = List.range sheet.size := by
  obtain ⟨stored, size⟩ := holds
  rw [preorder, stored.preorderWithin_eq (by omega), size, List.range_eq_range']
  rfl

end

/-! ## Nodes that come in -/

/-- The numbers from `low` on are those of nodes that came in: no node before them has a parent among them. -/
structure Inserted (low : Nat) (sheet : Sheet) : Prop where
  size : low ≤ sheet.size
  parent : ∀ n : Nat, n < low → ∀ above : Nat, sheet.parent n = some above → above < low

/-- The nodes from `low` on that are there stay as they are. -/
structure Untouched (low : Nat) (before after : Sheet) : Prop where
  size : before.size ≤ after.size
  node : ∀ n : Nat, low ≤ n → n < before.size → after.nodes[n]? = before.nodes[n]?

theorem Untouched.refl (low : Nat) (sheet : Sheet) : Untouched low sheet sheet := ⟨Nat.le_refl _, fun _ _ _ => rfl⟩

theorem Untouched.trans {low : Nat} {first second third : Sheet} (one : Untouched low first second)
    (two : Untouched low second third) : Untouched low first third := by
  refine ⟨Nat.le_trans one.size two.size, ?_⟩
  intro n high inside
  rw [two.node n high (Nat.lt_of_lt_of_le inside one.size), one.node n high inside]

theorem Untouched.modify {low n : Nat} (earlier : n < low) (sheet : Sheet) (change : Node → Node) :
    Untouched low sheet (sheet.modify n change) := by
  refine ⟨Nat.le_of_eq (size_modify _ _ _).symm, ?_⟩
  intro m high _
  rw [getElem?_modify, if_neg (by omega)]

theorem Untouched.setSelector {low n : Nat} (earlier : n < low) (sheet : Sheet) (selector : Text) :
    Untouched low sheet (sheet.setSelector n selector) := by
  rw [setSelector_eq_modifyContent]
  exact .modify earlier sheet _

theorem Untouched.remove {low n : Nat} {sheet : Sheet} (earlier : n < low) (inserted : Inserted low sheet) :
    Untouched low sheet (sheet.remove n) := by
  unfold Sheet.remove
  split
  · exact .refl low sheet
  · rename_i above attached
    exact (Untouched.modify earlier sheet _).trans (.modify (inserted.parent n earlier above attached) _ _)

/-- Items that come in before a node change the children of its parent and nothing else. -/
theorem getElem?_insertItemsBefore {sheet : Sheet} {anchor n : Nat} (inside : n < sheet.size)
    (elsewhere : sheet.parent anchor ≠ some n) (known : anchor < sheet.size) (items : List Item) :
    (sheet.insertItemsBefore anchor items).1.nodes[n]? = sheet.nodes[n]? := by
  induction items generalizing sheet with
  | nil => rfl
  | cons item rest ih =>
    obtain ⟨content, spacing, children⟩ := item
    rw [Sheet.insertItemsBefore]
    cases placed : sheet.insertBefore? anchor content spacing with
    | none => rfl
    | some found =>
      obtain ⟨middle, id⟩ := found
      obtain ⟨spread, rfl, size⟩ := Spread.insertBefore? placed
      have grown := appendItems_grown middle sheet.size (by omega) children
      have others : ∀ m : Nat, m < sheet.size → (middle.appendItems sheet.size children).1.nodes[m]? = middle.nodes[m]? :=
        fun m low => grown.others m (by omega) (by omega)
      have first : middle.nodes[n]? = sheet.nodes[n]? := by
        obtain ⟨_, above, attached, member, rfl⟩ := insertBefore?_eq_some placed
        rw [getElem?_attach (lt_size_of_mem_children member), if_neg (Nat.ne_of_lt inside),
          if_neg fun same : n = above => elsewhere (same ▸ attached)]
      have anchored : (middle.appendItems sheet.size children).1.parent anchor = sheet.parent anchor := by
        rw [← spread.parent anchor known]
        simp only [Sheet.parent, node_congr (others anchor known)]
      have larger : sheet.size ≤ (middle.appendItems sheet.size children).1.size := by
        rw [grown.size]
        omega
      rw [ih (Nat.lt_of_lt_of_le inside larger) (anchored ▸ elsewhere) (Nat.lt_of_lt_of_le known larger), others n inside, first]

/-- No edit at a node before `low` touches the nodes from `low` on. -/
theorem Edit.untouched {before after : Sheet} {c low : Nat} {renames : Prop} (edit : Edit c renames before after)
    (earlier : c < low) (inserted : Inserted low before) : Untouched low before after ∧ Inserted low after := by
  have larger := Nat.le_trans inserted.size edit.size_le
  cases edit with
  | @rewrite content same plain =>
    have shape : (before.setContent c content).SameShape before := sameShape_modifyContent before c fun _ => content
    refine ⟨.modify earlier before _, larger, ?_⟩
    intro n below above attached
    rw [shape.parent] at attached
    exact inserted.parent n below above attached
  | rename allowed selector =>
    refine ⟨.setSelector earlier before selector, larger, ?_⟩
    intro n below above attached
    rw [setSelector_eq_modifyContent, (sameShape_modifyContent before c _).parent] at attached
    exact inserted.parent n below above attached
  | @cut n le =>
    refine ⟨.remove (Nat.lt_of_le_of_lt le earlier) inserted, larger, ?_⟩
    intro m below above attached
    rw [parent_remove] at attached
    split at attached
    · cases attached
    · exact inserted.parent m below above attached
  | graft items =>
    have spread := Spread.insertItemsBefore before c items
    refine ⟨⟨spread.size, ?_⟩, larger, ?_⟩
    · intro n high inside
      refine getElem?_insertItemsBefore inside ?_ (Nat.lt_of_lt_of_le earlier inserted.size) items
      intro attached
      exact Nat.not_lt_of_le high (inserted.parent c earlier n attached)
    · intro n below above attached
      rw [spread.parent n (Nat.lt_of_lt_of_le below inserted.size)] at attached
      exact inserted.parent n below above attached

theorem untouched_of_edits {before after : Sheet} {c low : Nat} {renames : Prop}
    (edits : Relation.ReflTransGen (Edit c renames) before after) (earlier : c < low) (inserted : Inserted low before) :
    Untouched low before after ∧ Inserted low after := by
  induction edits with
  | refl => exact ⟨.refl low before, inserted⟩
  | tail _ edit ih =>
    obtain ⟨same, known⟩ := ih
    obtain ⟨next, still⟩ := edit.untouched earlier known
    exact ⟨same.trans next, still⟩

end Sheet

namespace Run
variable {σ : Type}

/-- Those of the given nodes at whose visit the gate asks the open directives. -/
def gated (registry : Registry σ) : List NodeId → Run σ → List NodeId
  | [], _ => []
  | node :: rest, run =>
    let later := gated registry rest (visit registry run node)
    if node ∈ run.scene.handled then later else node :: later

theorem gated_eq_self {registry : Registry σ} {nodes : List NodeId} {run : Run σ}
    (fresh : ∀ front node later, nodes = front ++ node :: later → node ∉ (front.foldl (visit registry) run).scene.handled) :
    gated registry nodes run = nodes := by
  induction nodes generalizing run with
  | nil => rfl
  | cons node rest ih =>
    have first : node ∉ run.scene.handled := fresh [] node rest rfl
    have others : gated registry rest (visit registry run node) = rest := by
      refine ih ?_
      intro front other later split
      exact fresh (node :: front) other later (by rw [split, List.cons_append])
    rw [gated, others]
    exact if_neg first

end Run

namespace Standard
open Run (Moment Stage)

section
variable {options : Options} {sheet : Sheet} {whole : Item}

/-! ## The nodes that are visited -/

/-- Where a visit stands in the record, the run has made the visits before it. -/
theorem of_trail_eq (holds : sheet.Holds whole) {front later : List NodeId} {node : NodeId}
    (split : (engine options).trail sheet = front ++ node :: later) :
    nodeAt options sheet front.length = node ∧ node < sheet.size ∧
      front.foldl (Run.visit (engine options).registry) ((engine options).start sheet) = runAt options sheet front.length := by
  obtain ⟨steps, recorded, _, inside⟩ := exists_trail_eq options holds
  have whole := split
  rw [recorded] at whole
  have length : steps = front.length + (later.length + 1) := by
    simpa using congrArg List.length whole
  have numbers : List.range steps = List.range front.length ++
      (List.range (later.length + 1)).map (front.length + ·) := by rw [length, List.range_add]
  rw [numbers, List.map_append] at whole
  obtain ⟨before, after⟩ := List.append_inj whole (by simp)
  have here : nodeAt options sheet front.length = node := by
    have first := congrArg List.head? after
    simpa [List.range_succ_eq_map] using first
  have visited : ((List.range front.length).map (nodeAt options sheet)).filter (· < sheet.size) = front := by
    refine (List.filter_eq_self.mpr ?_).trans before
    simp only [List.mem_map, List.mem_range, decide_eq_true_eq]
    rintro n ⟨i, early, rfl⟩
    exact inside i (by omega)
  refine ⟨here, here ▸ inside _ (by omega), ?_⟩
  rw [← foldl_visit_eq_runAt, visited]

theorem mem_trail_iff_exists (holds : sheet.Holds whole) {n : Nat} :
    n ∈ (engine options).trail sheet ↔ n < sheet.size ∧ ∃ i, nodeAt options sheet i = n := by
  obtain ⟨steps, recorded, ended, inside⟩ := exists_trail_eq options holds
  rw [recorded, List.mem_map]
  constructor
  · rintro ⟨i, early, rfl⟩
    exact ⟨inside i (List.mem_range.mp early), i, rfl⟩
  · rintro ⟨low, i, rfl⟩
    refine ⟨i, List.mem_range.mpr (Nat.lt_of_not_le fun late => ?_), rfl⟩
    have past : nodeAt options sheet steps ≤ nodeAt options sheet i := nodeAt_le holds late
    omega

/-- A visit to a node above another one that cuts it off leads behind the other one. -/
theorem parent_eq_of_nodeAt (holds : sheet.Holds whole) {above n i j : Nat} (inside : n < sheet.size)
    (chain : sheet.Above above n) (visited : nodeAt options sheet j = n) (here : nodeAt options sheet i = above) :
    (runAt options sheet (i + 1)).scene.sheet.parent above = sheet.parent above := by
  obtain ⟨low, high⟩ := (holds.above_iff inside).mp chain
  have reached : nodeAt options sheet i < sheet.size := by omega
  by_contra cut
  have next : nodeAt options sheet (i + 1) = sheet.stop above := by
    rw [nodeAt_succ reached, Run.resume, here, if_neg cut]
  have later : i + 1 ≤ j := by
    refine Nat.lt_of_not_le fun early => ?_
    have order : nodeAt options sheet j ≤ nodeAt options sheet i := nodeAt_le holds early
    omega
  have onward : nodeAt options sheet (i + 1) ≤ nodeAt options sheet j := nodeAt_le holds later
  omega

/-- The walk passes over a node only from a node above it, which its visit has cut off. -/
theorem exists_cut_of_passed (holds : sheet.Holds whole) {n : Nat} (inside : n < sheet.size)
    (passed : ∀ i, nodeAt options sheet i ≠ n) :
    ∃ above i, sheet.Above above n ∧ nodeAt options sheet i = above ∧
      (runAt options sheet (i + 1)).scene.sheet.parent above ≠ sheet.parent above := by
  -- The last number of the walk before the node.
  obtain ⟨i, before, after⟩ : ∃ i, nodeAt options sheet i < n ∧ n < nodeAt options sheet (i + 1) := by
    obtain ⟨last, ended, _⟩ := exists_nodeAt_eq_size options holds
    by_contra none
    have stuck : ∀ j, nodeAt options sheet j < n := by
      intro j
      induction j with
      | zero =>
        have first : nodeAt options sheet 0 = 0 := rfl
        have other := passed 0
        omega
      | succ j ih =>
        have other := passed (j + 1)
        have near : ¬ n < nodeAt options sheet (j + 1) := fun beyond => none ⟨j, ih, beyond⟩
        omega
    have bound := stuck last
    omega
  have reached : nodeAt options sheet i < sheet.size := Nat.lt_trans before inside
  rw [nodeAt_succ reached, Run.resume] at after
  split at after
  · omega
  · rename_i cut
    exact ⟨_, i, (holds.above_iff inside).mpr ⟨before, after⟩, rfl, cut⟩

/-- A node is visited exactly if no node above it was cut off when its own visit ended. -/
theorem mem_trail_iff (holds : sheet.Holds whole) {n : Nat} (inside : n < sheet.size) :
    n ∈ (engine options).trail sheet ↔ ∀ above, sheet.Above above n → ∀ i, nodeAt options sheet i = above →
      (runAt options sheet (i + 1)).scene.sheet.parent above = sheet.parent above := by
  rw [mem_trail_iff_exists holds]
  constructor
  · rintro ⟨_, j, visited⟩ above chain i here
    exact parent_eq_of_nodeAt holds inside chain visited here
  · intro attached
    refine ⟨inside, ?_⟩
    by_contra none
    obtain ⟨above, i, chain, here, cut⟩ := exists_cut_of_passed holds inside (not_exists.mp none)
    exact cut (attached above chain i here)

/-- The same, told by the record: the run behind a visit is the one that has made the visits up to it. -/
theorem mem_trail_iff_of_record (holds : sheet.Holds whole) {n : Nat} (inside : n < sheet.size) :
    n ∈ (engine options).trail sheet ↔ ∀ above, sheet.Above above n →
      ∀ front later, (engine options).trail sheet = front ++ above :: later →
        ((front ++ [above]).foldl (Run.visit (engine options).registry) ((engine options).start sheet)).scene.sheet.parent above =
          sheet.parent above := by
  have behind : ∀ {front later : List NodeId} {above : NodeId}, (engine options).trail sheet = front ++ above :: later →
      (front ++ [above]).foldl (Run.visit (engine options).registry) ((engine options).start sheet) =
        runAt options sheet (front.length + 1) := by
    intro front later above split
    obtain ⟨here, reached, earlier⟩ := of_trail_eq holds split
    rw [List.foldl_append, earlier, runAt_succ (here ▸ reached), here]
    rfl
  rw [mem_trail_iff holds inside]
  constructor
  · intro attached above chain front later split
    rw [behind split]
    exact attached above chain front.length (of_trail_eq holds split).1
  · intro attached above chain i here
    have reached : above < sheet.size := Nat.lt_trans ((holds.above_iff inside).mp chain).1 inside
    obtain ⟨front, later, split⟩ := List.append_of_mem ((mem_trail_iff_exists holds).mpr ⟨reached, i, here⟩)
    have same : i = front.length := by
      have there := (of_trail_eq holds split).1
      rcases Nat.lt_trichotomy i front.length with before | equal | after
      · have := nodeAt_lt holds (here ▸ reached) before
        omega
      · exact equal
      · have := nodeAt_lt holds (there ▸ reached) after
        omega
    rw [same, ← behind split]
    exact attached above chain front later split

theorem above_congr {n m : NodeId} (siblings : sheet.parent n = sheet.parent m) {above : NodeId} (chain : sheet.Above above n) :
    sheet.Above above m := by
  cases chain with
  | parent attached => exact .parent (siblings ▸ attached)
  | step attached further => exact .step (siblings ▸ attached) further

theorem mem_trail_of_sibling (holds : sheet.Holds whole) {n m : Nat} (inside : n < sheet.size) (other : m < sheet.size)
    (siblings : sheet.parent n = sheet.parent m) (visited : n ∈ (engine options).trail sheet) :
    m ∈ (engine options).trail sheet := by
  rw [mem_trail_iff holds inside] at visited
  rw [mem_trail_iff holds other]
  intro above chain
  exact visited above (above_congr siblings.symm chain)

theorem not_mem_handled_of_trail (holds : sheet.Holds whole) {front later : List NodeId} {node : NodeId}
    (split : (engine options).trail sheet = front ++ node :: later) :
    node ∉ (front.foldl (Run.visit (engine options).registry) ((engine options).start sheet)).scene.handled := by
  obtain ⟨here, inside, earlier⟩ := of_trail_eq holds split
  have reached : Reached sheet (IsLeaf sheet) (nodeAt options sheet front.length) (runAt options sheet front.length) :=
    reached_runAt holds front.length
  rw [earlier]
  exact (here ▸ reached).not_mem_handled inside

/-! ## Nodes that come in during a run -/

theorem Reached.inserted (holds : sheet.Holds whole) {allowed : Option Nat → Prop} {k : Nat} {run : Run State}
    (reached : Reached sheet allowed k run) : Sheet.Inserted sheet.size run.scene.sheet := by
  refine ⟨reached.size, ?_⟩
  intro n low above attached
  rcases reached.parent n low with same | cut
  · rw [same] at attached
    exact Nat.lt_trans (holds.lt_stop_of_parent attached).1 low
  · rw [cut] at attached
    cases attached

theorem During.untouched_renameAround (holds : sheet.Holds whole) {c : Nat} (inside : c < sheet.size)
    {allowed : Option Nat → Prop} {earlier : List (OpenDirective State)} {run : Run State}
    (during : During sheet allowed c earlier run) :
    Sheet.Untouched sheet.size run.scene.sheet (run.renameAround c).scene.sheet := by
  unfold Run.renameAround
  split
  · exact .refl _ _
  · split
    · exact .refl _ _
    · rename_i rule attached
      have low : rule < sheet.size := (during.toReached.inserted holds).parent c inside rule attached
      split
      · exact .refl _ _
      · rename_i selector _
        split
        · unfold Run.renameRule
          simp only
          split
          · split
            · rename_i waiting pair found
              have known : pair < c + 1 := during.pending _ (List.mem_of_find?_eq_some found)
              exact (Sheet.Untouched.setSelector (Nat.lt_of_lt_of_le known inside) _ _).trans (.setSelector low _ _)
            · exact .refl _ _
          · split
            · exact .refl _ _
            · exact .setSelector low _ _
        · exact .refl _ _

/-- From one moment to the next, what has come in stays as it is. -/
theorem Point.untouched (holds : sheet.Holds whole) (options : Options) {moment : Moment State} (point : Point sheet moment) :
    Sheet.Untouched sheet.size moment.run.scene.sheet (moment.next (engine options).registry).run.scene.sheet := by
  cases point with
  | @between k later run reached sorted ahead =>
    cases later with
    | nil => exact .refl _ _
    | cons c others =>
      rw [List.map_cons, Run.next_arrive]
      split <;> exact .refl _ _
  | @within c later moment standing inside sorted ahead =>
    obtain ⟨stage, ⟨earlier, during⟩, known⟩ := standing
    by_cases look : moment.tasks.head? = some (.rename c)
    · cases stage <;> cases look
      exact during.untouched_renameAround holds inside
    · have effect := Standing.effect options ⟨stage, ⟨earlier, during⟩, known⟩ look
      exact (Sheet.untouched_of_edits effect.edits inside (during.toReached.inserted holds)).1

theorem untouched_momentAt (holds : sheet.Holds whole) (options : Options) {time later : Nat} (order : time ≤ later) :
    Sheet.Untouched sheet.size ((engine options).momentAt sheet time).run.scene.sheet
      ((engine options).momentAt sheet later).run.scene.sheet := by
  induction order with
  | refl => exact .refl _ _
  | step _ ih => exact ih.trans ((point_momentAt holds options _).untouched holds options)

/-- The tasks of a run are about nodes of the sheet. -/
theorem Point.node_lt {moment : Moment State} (point : Point sheet moment) :
    ∀ task ∈ moment.tasks, task.node < sheet.size := by
  have arrivals : ∀ {later : List Nat}, (∀ n ∈ later, n < sheet.size) →
      ∀ task ∈ (later.map .arrive : List (Run.Task State)), task.node < sheet.size := by
    rintro later known _ listed
    obtain ⟨n, member, rfl⟩ := List.mem_map.mp listed
    exact known n member
  cases point with
  | between reached sorted ahead => exact arrivals fun n member => (ahead n member).2
  | @within c later moment standing inside sorted ahead =>
    have behind := arrivals fun n member => (ahead n member).2
    intro task listed
    cases standing.stage <;> simp only [List.mem_cons] at listed
    case flipping =>
      rcases listed with rfl | rfl | later
      · exact inside
      · exact inside
      · exact behind task later
    all_goals
      rcases listed with rfl | later
      · exact inside
      · exact behind task later

end

/-- A run of the standard engine on a sheet that was read, whatever directives it holds. Each visit asks the open
directives. The visited nodes stand in document order, none twice, and a node is passed over exactly if one above it was
cut off when its own visit ended; so of the nodes under one parent all are visited or none. Only nodes of the sheet are
ever visited, and a node that has come in stays as it is to the end. -/
theorem trail_of_parse {text : Text} {sheet : Sheet} (parsed : Sheet.parse text = .ok sheet) (options : Options) :
    let registry := (engine options).registry
    let first := (engine options).start sheet
    let trail := (engine options).trail sheet
    let moment := (engine options).momentAt sheet
    Run.gated registry trail first = trail ∧
    trail.Sublist (sheet.preorder Sheet.root) ∧ trail.Nodup ∧
    (∀ n < sheet.size, n ∈ trail ↔ ∀ above, sheet.Above above n → ∀ front later, trail = front ++ above :: later →
      ((front ++ [above]).foldl (Run.visit registry) first).scene.sheet.parent above = sheet.parent above) ∧
    (∀ n m, n < sheet.size → m < sheet.size → sheet.parent n = sheet.parent m → (n ∈ trail ↔ m ∈ trail)) ∧
    (∀ time, (∀ task ∈ (moment time).tasks, task.node < sheet.size) ∧ ∀ later, time ≤ later →
      ∀ n, sheet.size ≤ n → n < (moment time).run.scene.sheet.size →
        (moment later).run.scene.sheet.node n = (moment time).run.scene.sheet.node n) ∧
    (∃ last, moment last = ⟨[], trail.foldl (Run.visit registry) first⟩) ∧
    ((engine options).flip sheet).1 = (trail.foldl (Run.visit registry) first).scene.sheet ∧
    ((engine options).flip sheet).2.1 = (trail.foldl (Run.visit registry) first).report := by
  intro registry first trail moment
  obtain ⟨_, _, _, holds⟩ := Sheet.exists_holds_of_parse parsed
  have increasing : trail.Pairwise (· < ·) := trail_increasing options holds
  have inside : ∀ n ∈ trail, n < sheet.size := fun n member => ((mem_trail_iff_exists holds).mp member).1
  have traversed : Run.traverse registry first = trail.foldl (Run.visit registry) first :=
    Run.traverse_eq_foldl_trail registry first
  refine ⟨?_, ?_, increasing.imp Nat.ne_of_lt, ?_, ?_, ?_, ?_, ?_, ?_⟩
  · exact Run.gated_eq_self fun front node later split => not_mem_handled_of_trail holds split
  · rw [holds.preorder_root]
    have listed : trail ⊆ List.range sheet.size := fun n member => List.mem_range.mpr (inside n member)
    exact List.sublist_of_subperm_of_pairwise (List.subperm_of_subset (increasing.imp Nat.ne_of_lt) listed) increasing
      List.pairwise_lt_range
  · intro n low
    exact mem_trail_iff_of_record holds low
  · intro n m low other siblings
    exact ⟨mem_trail_of_sibling holds low other siblings, mem_trail_of_sibling holds other low siblings.symm⟩
  · intro time
    refine ⟨(point_momentAt holds options time).node_lt, ?_⟩
    intro later order n high low
    exact Sheet.node_congr ((untouched_momentAt holds options order).node n high low)
  · rw [← traversed]
    exact Engine.exists_momentAt_eq_traverse (engine options) sheet
  · rw [← traversed]
    rfl
  · rw [← traversed]
    rfl

/-- A `raw` brings a rule in, and a `remove` cuts off a rule inside another one: its declaration is passed over, the
declaration behind it is visited. -/
theorem trail_of_parse_removed :
    ∃ sheet, Sheet.parse "/*rtl:raw:.x{}*/.a{/*rtl:remove*/.c{left:0}top:0}".toList = .ok sheet ∧
      let trail := (engine {}).trail sheet
      trail = [0, 1, 2, 3, 4, 6] ∧ sheet.parent 4 = sheet.parent 6 ∧ (4 ∈ trail ↔ 6 ∈ trail) ∧
      (∃ above, sheet.Above above 5 ∧ ∃ front later, trail = front ++ above :: later ∧
        ((front ++ [above]).foldl (Run.visit (engine {}).registry) ((engine {}).start sheet)).scene.sheet.parent above ≠
          sheet.parent above) := by
  obtain ⟨sheet, parsed, test⟩ := Sheet.exists_of_readable
    (by decide +kernel : (Sheet.parse "/*rtl:raw:.x{}*/.a{/*rtl:remove*/.c{left:0}top:0}".toList).toOption.any (fun sheet =>
      (engine {}).trail sheet == [0, 1, 2, 3, 4, 6] && sheet.parent 4 == sheet.parent 6 && sheet.size == 7) = true)
  simp only [Bool.and_eq_true, beq_iff_eq] at test
  obtain ⟨⟨visited, siblings⟩, size⟩ := test
  obtain ⟨_, _, _, reached, together, _⟩ := trail_of_parse parsed {}
  refine ⟨sheet, parsed, visited, siblings, together 4 6 (by omega) (by omega) siblings, ?_⟩
  have passed : 5 ∉ (engine {}).trail sheet := by
    rw [visited]
    decide
  have cut := mt (reached 5 (by omega)).mpr passed
  push Not at cut
  exact cut

end Standard
end StyleFlip
