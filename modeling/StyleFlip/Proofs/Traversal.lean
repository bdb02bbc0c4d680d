import StyleFlip.Engine.Basic
import StyleFlip.Proofs.Layout

/-!
The order in which a run visits nodes. However far down a walk goes, it gives what it comes to in the end, if it comes to an end
(`Walker.walk_of_walks`). A run makes its visits one after the other, and the nodes that it visits can be recorded on the way
(`trail`). It is a walk over the numbers of a stored sheet: after each visit it goes on at the next
number, or behind everything below the node if the node was cut off by its visit (`walk`). The traversal does at once what
the walk does step by step (`Invariant.exists_walk`), as long as visits leave alone what lies ahead of them; so what holds
of a run is shown by one step from each number to the next (`Invariant.traverse`).
-/
namespace StyleFlip

/-- Two sheets with the same nodes in the same places. -/
structure Sheet.SameShape (sheet other : Sheet) : Prop where
  size : sheet.size = other.size
  parent : ∀ id, sheet.parent id = other.parent id
  children : ∀ id, sheet.children id = other.children id

namespace Sheet

theorem SameShape.trans {first second third : Sheet} (one : first.SameShape second) (two : second.SameShape third) :
    first.SameShape third :=
  ⟨one.size.trans two.size, fun id => (one.parent id).trans (two.parent id),
    fun id => (one.children id).trans (two.children id)⟩

theorem sameShape_modifyContent (sheet : Sheet) (id : Nat) (change : Content → Content) :
    (sheet.modifyContent id change).SameShape sheet := by
  refine ⟨size_modify _ _ _, ?_, ?_⟩
  · intro other
    simp only [Sheet.parent, Sheet.node, getElem?_modifyContent]
    cases sheet.nodes[other]? <;> rfl
  · intro other
    simp only [Sheet.children, Sheet.node, getElem?_modifyContent]
    cases sheet.nodes[other]? <;> rfl

theorem kind_modifyContent {change : Content → Content} (keeps : ∀ content, (change content).kind = content.kind)
    (sheet : Sheet) (id other : Nat) : (sheet.modifyContent id change).kind other = sheet.kind other := by
  simp only [Sheet.kind, Sheet.content, Sheet.node, getElem?_modifyContent]
  cases sheet.nodes[other]? with
  | none => rfl
  | some node => by_cases own : other = id <;> simp [own, keeps]

theorem SameShape.isFinalOfKind_eq {sheet other : Sheet} (shape : sheet.SameShape other)
    (kinds : ∀ id, sheet.kind id = other.kind id) (id : Nat) : sheet.isFinalOfKind id = other.isFinalOfKind id := by
  simp only [isFinalOfKind, shape.parent, shape.children, kinds]

end Sheet

/-! ## Walks -/

namespace Walker
variable {ρ τ : Type} {walker : Walker ρ}

/-- How a walk goes on below `parent` with the given children, from one state to another and however far down. -/
inductive Walks (walker : Walker ρ) : NodeId → List NodeId → ρ → ρ → Prop
  | done {parent : NodeId} {state : ρ} : Walks walker parent [] state state
  | passed {parent child : NodeId} {rest : List NodeId} {state after : ρ}
      (cut : (walker.sheet state).parent child ≠ some parent) (others : Walks walker parent rest state after) :
      Walks walker parent (child :: rest) state after
  | left {parent child : NodeId} {rest : List NodeId} {state after : ρ}
      (attached : (walker.sheet state).parent child = some parent)
      (cut : (walker.sheet (walker.visit state child)).parent child ≠ some parent)
      (others : Walks walker parent rest (walker.visit state child) after) : Walks walker parent (child :: rest) state after
  | entered {parent child : NodeId} {rest : List NodeId} {state middle after : ρ}
      (attached : (walker.sheet state).parent child = some parent)
      (stays : (walker.sheet (walker.visit state child)).parent child = some parent)
      (inner : Walks walker child ((walker.sheet (walker.visit state child)).children child) (walker.visit state child) middle)
      (others : Walks walker parent rest middle after) : Walks walker parent (child :: rest) state after

section
variable {parent : NodeId} {children : List NodeId} {state after : ρ}

/-- What goes from one state to the other takes some number of levels, and more do no harm. -/
theorem Walks.exists_levels (walks : Walks walker parent children state after) :
    ∃ enough, ∀ levels, enough ≤ levels → children.foldlM (walker.pass (walker.below levels) parent) state = some after := by
  induction walks with
  | done => exact ⟨0, fun _ _ => rfl⟩
  | passed cut _ ih =>
    obtain ⟨enough, others⟩ := ih
    refine ⟨enough, fun levels more => ?_⟩
    rw [List.foldlM_cons, pass, if_neg cut]
    exact others levels more
  | left attached cut _ ih =>
    obtain ⟨enough, others⟩ := ih
    refine ⟨enough, fun levels more => ?_⟩
    rw [List.foldlM_cons, pass, if_pos attached]
    simp only [if_neg cut]
    exact others levels more
  | entered attached stays _ _ innerIh ih =>
    obtain ⟨deep, inner⟩ := innerIh
    obtain ⟨enough, others⟩ := ih
    refine ⟨max (deep + 1) enough, fun levels more => ?_⟩
    obtain ⟨levels, rfl⟩ : ∃ fewer, levels = fewer + 1 := ⟨levels - 1, by omega⟩
    rw [List.foldlM_cons, pass, if_pos attached]
    simp only [if_pos stays]
    rw [Walker.below, inner levels (by omega)]
    exact others (levels + 1) (by omega)

theorem Walks.unique {other : ρ} (walks : Walks walker parent children state after)
    (also : Walks walker parent children state other) : after = other := by
  obtain ⟨enough, one⟩ := walks.exists_levels
  obtain ⟨deep, two⟩ := also.exists_levels
  exact Option.some.inj ((one _ (Nat.le_max_left enough deep)).symm.trans (two _ (Nat.le_max_right enough deep)))

theorem walks_of_below {levels : Nat} (read : walker.below levels parent state = some after) :
    walker.Walks parent ((walker.sheet state).children parent) state after := by
  induction levels generalizing parent state after with
  | zero => cases read
  | succ levels ih =>
    rw [below] at read
    generalize (walker.sheet state).children parent = children at read
    induction children generalizing state with
    | nil =>
      cases read
      exact .done
    | cons child rest others =>
      rw [List.foldlM_cons] at read
      obtain ⟨middle, turn, onward⟩ := Option.bind_eq_some_iff.mp read
      rw [pass] at turn
      split at turn
      · rename_i attached
        simp only at turn
        split at turn
        · rename_i stays
          exact .entered attached stays (ih turn) (others onward)
        · rename_i cut
          cases turn
          exact .left attached cut (others onward)
      · rename_i cut
        cases turn
        exact .passed cut (others onward)

/-- If a walk comes to an end, the search for enough levels does so as well. -/
theorem below_depth (walks : walker.Walks Sheet.root ((walker.sheet state).children Sheet.root) state after) (levels : Nat) :
    walker.below (walker.depth state levels) Sheet.root state = some after := by
  obtain ⟨enough, reached⟩ := walks.exists_levels
  have founded : WellFounded fun next levels : Nat =>
      next = levels + 1 ∧ (walker.below levels Sheet.root state).isNone = true := by
    refine Subrelation.wf ?_ (measure fun levels => enough + 1 - levels).wf
    rintro next levels ⟨rfl, short⟩
    have few : levels ≤ enough := by
      by_contra many
      obtain ⟨fewer, rfl⟩ : ∃ fewer, levels = fewer + 1 := ⟨levels - 1, by omega⟩
      rw [below, reached fewer (by omega)] at short
      cases short
    change enough + 1 - (levels + 1) < enough + 1 - levels
    omega
  induction levels using founded.induction with
  | h levels ih =>
    rw [depth, WellFounded.extrinsicFix_eq_apply founded]
    split
    · rename_i short
      exact ih (levels + 1) ⟨rfl, short⟩
    · rename_i deep
      rw [Option.isNone_iff_eq_none] at deep
      obtain ⟨other, read⟩ := Option.ne_none_iff_exists'.mp deep
      rw [read, (walks_of_below read).unique walks]

/-- A walk that comes to an end gives what it ends with. -/
theorem walk_of_walks
    (walks : walker.Walks Sheet.root ((walker.sheet (walker.visit state Sheet.root)).children Sheet.root)
      (walker.visit state Sheet.root) after) : walker.walk state = after := by
  simp only [walk]
  split
  · rename_i read
    exact (walks_of_below read).unique walks
  · rw [below_depth walks, Option.getD_some]

theorem walks_walk_or (walker : Walker ρ) (state : ρ) :
    let first := walker.visit state Sheet.root
    walker.Walks Sheet.root ((walker.sheet first).children Sheet.root) first (walker.walk state) ∨
      (∀ after, ¬ walker.Walks Sheet.root ((walker.sheet first).children Sheet.root) first after) ∧ walker.walk state = first := by
  intro first
  by_cases ends : ∃ after, walker.Walks Sheet.root ((walker.sheet first).children Sheet.root) first after
  · obtain ⟨after, walks⟩ := ends
    rw [walk_of_walks walks]
    exact .inl walks
  · have endless := not_exists.mp ends
    have short : ∀ levels, walker.below levels Sheet.root first = none :=
      fun levels => Option.eq_none_iff_forall_ne_some.mpr fun after read => endless after (walks_of_below read)
    refine .inr ⟨endless, ?_⟩
    simp only [walk, show walker.visit state Sheet.root = first from rfl, short, Option.getD_none]

/-- What all visits carry on holds at the end of a walk. -/
theorem walk_induct {P : ρ → Prop} (visits : ∀ state node, P state → P (walker.visit state node)) (start : P state) :
    P (walker.walk state) := by
  have along : ∀ {parent children state after}, walker.Walks parent children state after → P state → P after := by
    intro parent children state after walks
    induction walks with
    | done => exact id
    | passed _ _ ih => exact ih
    | left _ _ _ ih => exact fun before => ih (visits _ _ before)
    | entered _ _ _ _ inner ih => exact fun before => ih (inner (visits _ _ before))
  rcases walks_walk_or walker state with walks | ⟨_, same⟩
  · exact along walks (visits _ _ start)
  · rw [same]
    exact visits _ _ start

end

section
variable {other : Walker τ} {view : ρ → τ} (sheets : ∀ state, other.sheet (view state) = walker.sheet state)
  (visits : ∀ state node, view (walker.visit state node) = other.visit (view state) node)
include sheets visits

theorem Walks.map {parent : NodeId} {children : List NodeId} {state after : ρ} (walks : Walks walker parent children state after) :
    Walks other parent children (view state) (view after) := by
  induction walks with
  | done => exact .done
  | passed cut _ ih => exact .passed (by rwa [sheets]) ih
  | left attached cut _ ih =>
    rw [visits] at ih
    exact .left (by rwa [sheets]) (by rwa [← visits, sheets]) ih
  | entered attached stays _ _ inner ih =>
    rw [visits, ← sheets, visits] at inner
    exact .entered (by rwa [sheets]) (by rwa [← visits, sheets]) inner ih

theorem Walks.exists_of_map {parent : NodeId} {children : List NodeId} {start ending : τ}
    (walks : Walks other parent children start ending) {state : ρ} (same : view state = start) :
    ∃ after, Walks walker parent children state after := by
  induction walks generalizing state with
  | done => exact ⟨state, .done⟩
  | passed cut _ ih =>
    subst same
    obtain ⟨after, others⟩ := ih rfl
    exact ⟨after, .passed (by rwa [← sheets]) others⟩
  | left attached cut _ ih =>
    subst same
    obtain ⟨after, others⟩ := ih (visits _ _)
    exact ⟨after, .left (by rwa [← sheets]) (by rwa [← sheets, visits]) others⟩
  | entered attached stays inner _ innerIh ih =>
    subst same
    obtain ⟨middle, within⟩ := innerIh (visits _ _)
    rw [← visits, sheets] at within
    obtain rfl := (within.map sheets visits).unique (by rwa [visits, ← sheets, visits])
    obtain ⟨after, others⟩ := ih rfl
    exact ⟨after, .entered (by rwa [← sheets]) (by rwa [← sheets, visits]) within others⟩

/-- Walks that are the same seen from outside end with the same. -/
theorem walk_map (state : ρ) : view (walker.walk state) = other.walk (view state) := by
  have first := visits state Sheet.root
  rcases walks_walk_or walker state with walks | ⟨endless, same⟩
  · have mapped := walks.map sheets visits
    rw [← sheets, first] at mapped
    exact (walk_of_walks mapped).symm
  · rcases walks_walk_or other (view state) with walks | ⟨_, also⟩
    · obtain ⟨after, within⟩ := walks.exists_of_map sheets visits first
      rw [← first, sheets] at within
      exact absurd within (endless after)
    · rw [same, also, first]

end
end Walker

namespace Run
variable {σ : Type}

/-! ## The gate -/

/-- The run with a node marked as done. -/
def marked (run : Run σ) (node : NodeId) : Run σ := { run with scene := { run.scene with handled := node :: run.scene.handled } }

@[simp] theorem sheet_marked (run : Run σ) (node : NodeId) : (run.marked node).scene.sheet = run.scene.sheet := rfl

@[simp] theorem options_marked (run : Run σ) (node : NodeId) : (run.marked node).scene.options = run.scene.options := rfl

@[simp] theorem map_marked (run : Run σ) (node : NodeId) : (run.marked node).scene.map = run.scene.map := rfl

/-- The gate asks all open directives about a node that is not done with. -/
theorem gate_eq_consult {run : Run σ} {node : NodeId} (fresh : node ∉ run.scene.handled) :
    run.gate node =
      (!(consult node (run.scene.sheet.kind node) [] false run.stack (run.marked node)).1,
        (consult node (run.scene.sheet.kind node) [] false run.stack (run.marked node)).2) := by
  simp only [gate, if_neg fresh, Scene.markHandled]
  rfl

/-! ## Document order -/

/-- The number at which a run goes on after its visit to a node of the given sheet. -/
def resume (sheet : Sheet) (node : Nat) (run : Run σ) : Nat :=
  if run.scene.sheet.parent node = sheet.parent node then node + 1 else sheet.stop node

/-- `At k` holds of a run that is about to visit number `k` of a stored sheet: it finds the node in its place, its visit
leaves the children of the node alone and never cuts off the root, and it carries `At` on to the number at which the run
goes on. -/
structure Invariant (registry : Registry σ) (sheet : Sheet) (At : Nat → Run σ → Prop) : Prop where
  attached : ∀ k run, At k run → k < sheet.size → run.scene.sheet.parent k = sheet.parent k
  children : ∀ k run, At k run → k < sheet.size → (visit registry run k).scene.sheet.children k = sheet.children k
  top : ∀ run, At Sheet.root run →
    (visit registry run Sheet.root).scene.sheet.parent Sheet.root = sheet.parent Sheet.root
  next : ∀ k run, At k run → k < sheet.size → At (resume sheet k (visit registry run k)) (visit registry run k)

/-! ## The nodes that are visited -/

/-- The visits of a run with a record: the numbers of the nodes that were visited so far, in order, and the run. -/
def recorder (registry : Registry σ) : Walker (List NodeId × Run σ) :=
  ⟨(·.2.scene.sheet), fun state node => (state.1 ++ [node], visit registry state.2 node)⟩

/-- The numbers of the nodes that a run visits, in order. -/
def trail (registry : Registry σ) (run : Run σ) : List NodeId := ((recorder registry).walk ([], run)).1

/-- The record does not change the run. -/
theorem snd_walk_recorder (registry : Registry σ) (state : List NodeId × Run σ) :
    ((recorder registry).walk state).2 = traverse registry state.2 :=
  @Walker.walk_map _ _ (recorder registry) (walker registry) Prod.snd (fun _ => rfl) (fun _ _ => rfl) state

/-- A run makes its visits one after the other and does nothing else. -/
theorem traverse_eq_foldl_trail (registry : Registry σ) (run : Run σ) :
    traverse registry run = (trail registry run).foldl (visit registry) run := by
  have recorded : (trail registry run).foldl (visit registry) run = ((recorder registry).walk ([], run)).2 := by
    refine Walker.walk_induct (P := fun state : List NodeId × Run σ => state.1.foldl (visit registry) run = state.2) ?_ rfl
    intro state node recorded
    simp only [recorder, List.foldl_append, recorded, List.foldl_cons, List.foldl_nil]
  exact (snd_walk_recorder registry ([], run)).symm.trans recorded.symm

/-- `Kept k` holds of the record of a run that is about to visit number `k`: every visit carries it on. -/
def Keeps (registry : Registry σ) (sheet : Sheet) (At : Nat → Run σ → Prop) (Kept : Nat → List NodeId × Run σ → Prop) : Prop :=
  ∀ k state, At k state.2 → k < sheet.size → Kept k state →
    Kept (resume sheet k (visit registry state.2 k)) (state.1 ++ [k], visit registry state.2 k)

section
variable {registry : Registry σ} {sheet : Sheet} {At : Nat → Run σ → Prop} {Kept : Nat → List NodeId × Run σ → Prop}

mutual
theorem Invariant.below (inv : Invariant registry sheet At) (keeps : Keeps registry sheet At Kept) :
    ∀ {item : Item} {parent : Option NodeId} {id : Nat} (state : List NodeId × Run σ), sheet.Stores parent id item →
      id + item.count ≤ sheet.size → state.2.scene.sheet.children id = sheet.children id →
      At (id + 1) state.2 ∧ Kept (id + 1) state →
        ∃ after, (recorder registry).Walks id (state.2.scene.sheet.children id) state after ∧
          At (id + item.count) after.2 ∧ Kept (id + item.count) after
  | .node content spacing children, parent, id, state, stored, inside, same, before => by
    simp only [Item.count] at inside ⊢
    have stop : id + (Item.countAll children + 1) = id + 1 + Item.countAll children := by omega
    have listed : sheet.children id = Item.places (id + 1) children := stored.children_eq
    rw [same, listed, stop]
    exact inv.among keeps state stored.2 (by omega) before

theorem Invariant.among (inv : Invariant registry sheet At) (keeps : Keeps registry sheet At Kept) :
    ∀ {items : List Item} {parent start : Nat} (state : List NodeId × Run σ), sheet.StoresAll parent start items →
      start + Item.countAll items ≤ sheet.size → At start state.2 ∧ Kept start state →
        ∃ after, (recorder registry).Walks parent (Item.places start items) state after ∧
          At (start + Item.countAll items) after.2 ∧ Kept (start + Item.countAll items) after
  | [], parent, start, state, _, _, before => ⟨state, .done, by simpa [Item.countAll] using before⟩
  | item :: rest, parent, start, state, stored, inside, before => by
    have whole := Sheet.count_eq item
    simp only [Item.countAll] at inside ⊢
    have reached : start < sheet.size := Sheet.lt_size_of_getElem? stored.1.getElem?
    have attached : state.2.scene.sheet.parent start = some parent := by
      rw [inv.attached _ _ before.1 reached, stored.1.parent_eq]
    have visited := And.intro (inv.next _ _ before.1 reached) (keeps _ _ before.1 reached before.2)
    simp only [resume, stored.1.parent_eq] at visited
    rw [Item.places, ← Nat.add_assoc]
    -- Both ways of going on end behind the last node below the child.
    by_cases stays : (visit registry state.2 start).scene.sheet.parent start = some parent
    · rw [if_pos stays] at visited
      obtain ⟨middle, inner, passed⟩ := inv.below keeps (state.1 ++ [start], visit registry state.2 start) stored.1 (by omega)
        (inv.children _ _ before.1 reached) visited
      obtain ⟨after, others, ended⟩ := inv.among keeps middle stored.2 (by omega) passed
      exact ⟨after, .entered attached stays inner others, ended⟩
    · rw [if_neg stays, stored.1.stop_eq (by omega)] at visited
      obtain ⟨after, others, ended⟩ := inv.among keeps (state.1 ++ [start], visit registry state.2 start) stored.2 (by omega) visited
      exact ⟨after, .left attached stays others, ended⟩
end

/-- What each visit carries from its number to the next holds of the whole run, and of the record of its visits. -/
theorem Invariant.traverseTrail (inv : Invariant registry sheet At) (keeps : Keeps registry sheet At Kept)
    {item : Item} (holds : sheet.Holds item) {run : Run σ} (start : At Sheet.root run)
    (first : Kept Sheet.root ([], run)) :
    At sheet.size (Run.traverse registry run) ∧ Kept sheet.size (Run.trail registry run, Run.traverse registry run) := by
  obtain ⟨stored, size⟩ := holds
  have reached : Sheet.root < sheet.size := Sheet.lt_size_of_getElem? stored.getElem?
  have visited := inv.next _ _ start reached
  have recorded := keeps Sheet.root ([], run) start reached first
  rw [resume, if_pos (inv.top _ start)] at visited recorded
  have ends : sheet.size = Sheet.root + item.count := by simp only [Sheet.root, size, Nat.zero_add]
  obtain ⟨after, walks, ended⟩ :=
    inv.below keeps ([] ++ [Sheet.root], visit registry run Sheet.root) stored (Nat.le_of_eq ends.symm)
      (inv.children _ _ start reached) ⟨visited, recorded⟩
  have same : (Run.trail registry run, Run.traverse registry run) = after := by
    have last : (recorder registry).walk ([], run) = after := @Walker.walk_of_walks _ (recorder registry) ([], run) after walks
    rw [← last, ← snd_walk_recorder registry ([], run)]
    rfl
  rw [ends, show Run.traverse registry run = (Run.trail registry run, Run.traverse registry run).2 from rfl, same]
  exact ended

/-- What each visit carries from its number to the next holds of the whole run. -/
theorem Invariant.traverse (inv : Invariant registry sheet At) {item : Item} (holds : sheet.Holds item) {run : Run σ}
    (start : At Sheet.root run) : At sheet.size (Run.traverse registry run) :=
  (inv.traverseTrail (fun _ _ _ _ _ => trivial : Keeps registry sheet At fun _ _ => True) holds start trivial).1

end

/-! ## Step by step -/

/-- The walk of a run over a stored sheet: after so many visits, the number that comes next and the run. -/
def walk (registry : Registry σ) (sheet : Sheet) (start : Run σ) : Nat → Nat × Run σ
  | 0 => (Sheet.root, start)
  | steps + 1 =>
    let (node, run) := walk registry sheet start steps
    if node < sheet.size then
      let run := visit registry run node
      (resume sheet node run, run)
    else (node, run)

/-- What each visit carries from its number to the next holds at every step of the walk. -/
theorem Invariant.walk {registry : Registry σ} {sheet : Sheet} {At : Nat → Run σ → Prop}
    (inv : Invariant registry sheet At) {start : Run σ} (first : At Sheet.root start) (steps : Nat) :
    At (Run.walk registry sheet start steps).1 (Run.walk registry sheet start steps).2 := by
  induction steps with
  | zero => exact first
  | succ steps ih =>
    simp only [Run.walk]
    split
    · rename_i inside
      exact inv.next _ _ ih inside
    · exact ih

/-- The walk ends with what the traversal gives, and its numbers are those of the nodes that the traversal visits. -/
theorem Invariant.exists_walk {registry : Registry σ} {sheet : Sheet} {At : Nat → Run σ → Prop}
    (inv : Invariant registry sheet At) {item : Item} (holds : sheet.Holds item) {start : Run σ}
    (first : At Sheet.root start) :
    ∃ steps, Run.walk registry sheet start steps = (sheet.size, Run.traverse registry start) ∧
      (Run.trail registry start = (List.range steps).map fun step => (Run.walk registry sheet start step).1) ∧
      ∀ n ∈ Run.trail registry start, n < sheet.size := by
  have keeps : Keeps registry sheet At fun k state =>
      ∃ steps, Run.walk registry sheet start steps = (k, state.2) ∧
        (state.1 = (List.range steps).map fun step => (Run.walk registry sheet start step).1) ∧ ∀ n ∈ state.1, n < sheet.size := by
    rintro k state before inside ⟨steps, walked, recorded, known⟩
    refine ⟨steps + 1, ?_, ?_, ?_⟩
    · simp only [Run.walk, walked, inside, if_true]
    · rw [List.range_succ, List.map_append, ← recorded]
      simp [walked]
    · intro n member
      rcases List.mem_append.mp member with earlier | here
      · exact known n earlier
      · rw [List.mem_singleton.mp here]
        exact inside
  exact (inv.traverseTrail keeps holds first ⟨0, rfl, rfl, by simp⟩).2

end Run

/-- The numbers of the nodes that a run of an engine visits, in order. -/
def Engine.trail {σ : Type} (engine : Engine σ) (sheet : Sheet) : List NodeId := Run.trail engine.registry (engine.start sheet)

end StyleFlip
