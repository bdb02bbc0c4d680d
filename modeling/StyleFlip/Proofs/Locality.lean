import StyleFlip.Proofs.DirectiveFree
import StyleFlip.Proofs.Moments

/-!
What a visit can touch. While a node is visited, nodes may be cut off and new ones may come in behind all others, but
later nodes stay as they are, and the node itself keeps its children (`Sheet.Local`). The standard directives keep to
this, so a run finds what lies ahead of it just as it was read (`Reached`), whatever directives the sheet holds.
-/
namespace StyleFlip

namespace Sheet

/-- What may become of a sheet while node `c` is visited. -/
structure Local (c : Nat) (before after : Sheet) : Prop where
  size : before.size ≤ after.size
  ahead : ∀ n : Nat, c < n → n < before.size → after.nodes[n]? = before.nodes[n]?
  parent : ∀ n : Nat, n < before.size → after.parent n = before.parent n ∨ after.parent n = none
  children : after.children c = before.children c
  comment : after.comment? c = before.comment? c

theorem Local.refl (c : Nat) (sheet : Sheet) : Local c sheet sheet :=
  ⟨Nat.le_refl _, fun _ _ _ => rfl, fun _ _ => .inl rfl, rfl, rfl⟩

theorem Local.trans {c : Nat} {first second third : Sheet} (one : Local c first second) (two : Local c second third) :
    Local c first third where
  size := Nat.le_trans one.size two.size
  ahead := fun n later inside => (two.ahead n later (Nat.lt_of_lt_of_le inside one.size)).trans (one.ahead n later inside)
  parent := by
    intro n inside
    rcases two.parent n (Nat.lt_of_lt_of_le inside one.size) with same | cut
    · rw [same]
      exact one.parent n inside
    · exact .inr cut
  children := two.children.trans one.children
  comment := two.comment.trans one.comment

theorem comment?_eq_none {sheet : Sheet} {id : Nat} (other : sheet.kind id ≠ .comment) : sheet.comment? id = none := by
  unfold comment?
  split
  · rename_i content
    exact absurd (by rw [kind, content]; rfl) other
  · rfl

/-- A node up to `c` may be changed as long as its parent stays or goes; node `c` itself keeps its children and, if it
is a comment, its text. -/
theorem Local.modify {c n : Nat} {sheet : Sheet} {change : Node → Node} (low : n ≤ c)
    (parents : ∀ node, (change node).parent = node.parent ∨ (change node).parent = none)
    (own : n = c → ∀ node, sheet.nodes[n]? = some node → (change node).children = node.children ∧
      ((change node).content = node.content ∨ node.content.kind ≠ .comment ∧ (change node).content.kind ≠ .comment)) :
    Local c sheet (sheet.modify n change) := by
  have nodes := fun m => getElem?_modify sheet n m change
  refine ⟨Nat.le_of_eq (size_modify sheet n change).symm, ?_, ?_, ?_, ?_⟩
  · intro m later _
    rw [nodes, if_neg (Nat.ne_of_lt (Nat.lt_of_le_of_lt low later))]
  · intro m _
    simp only [Sheet.parent, Sheet.node, nodes]
    split
    · cases sheet.nodes[m]? with
      | none => exact .inl rfl
      | some node => exact parents node
    · exact .inl rfl
  · by_cases here : n = c
    · subst here
      simp only [Sheet.children, Sheet.node, nodes, if_true]
      cases found : sheet.nodes[n]? with
      | none => rfl
      | some node => exact (own rfl node found).1
    · simp only [Sheet.children, Sheet.node, nodes, if_neg here]
  · by_cases here : n = c
    · subst here
      have after := nodes n
      rw [if_pos rfl] at after
      cases found : sheet.nodes[n]? with
      | none => simp [comment?, Sheet.content, Sheet.node, after, found]
      | some node =>
        rw [found] at after
        rcases (own rfl node found).2 with same | ⟨silent, silentAfter⟩
        · simp [comment?, Sheet.content, Sheet.node, after, found, same]
        · rw [comment?_eq_none (by rw [kind, content_eq_of_getElem? after]; exact silentAfter),
            comment?_eq_none (by rw [kind, content_eq_of_getElem? found]; exact silent)]
    · simp only [comment?, Sheet.content, Sheet.node, nodes, if_neg here]

/-- New content for a node that is no comment and does not become one. -/
theorem Local.setContent {c n : Nat} {sheet : Sheet} {content : Content} (low : n ≤ c) (before : sheet.kind n ≠ .comment)
    (after : content.kind ≠ .comment) : Local c sheet (sheet.setContent n content) := by
  refine .modify low (fun _ => .inl rfl) ?_
  intro _ node found
  rw [kind, content_eq_of_getElem? found] at before
  exact ⟨rfl, .inr ⟨before, after⟩⟩

theorem Local.setSelector {c n : Nat} (low : n ≤ c) (sheet : Sheet) (selector : Text) :
    Local c sheet (sheet.setSelector n selector) := by
  unfold Sheet.setSelector
  split
  · rename_i content
    exact .setContent low (by simp [kind, content, Content.kind]) (by simp [Content.kind])
  · exact .refl c sheet

theorem Local.setParams {c n : Nat} (low : n ≤ c) (sheet : Sheet) (params : Text) :
    Local c sheet (sheet.setParams n params) := by
  unfold Sheet.setParams
  split
  · rename_i content
    exact .setContent low (by simp [kind, content, Content.kind]) (by simp [Content.kind])
  · exact .refl c sheet

theorem Local.modifyDeclaration {c n : Nat} (low : n ≤ c) (sheet : Sheet) (change : Declaration → Declaration) :
    Local c sheet (sheet.modifyDeclaration n change) := by
  unfold Sheet.modifyDeclaration
  split
  · rename_i content
    exact .setContent low (by simp [kind, content, Content.kind]) (by simp [Content.kind])
  · exact .refl c sheet

/-- A node that is cut off changes itself and its parent, which comes before it. -/
theorem Local.remove {c n : Nat} (low : n ≤ c) {sheet : Sheet} (descends : ∀ above : Nat, sheet.parent n = some above → above < n) :
    Local c sheet (sheet.remove n) := by
  unfold Sheet.remove
  split
  · exact .refl c sheet
  · rename_i above attached
    have before : above < n := descends above attached
    have cut : Local c sheet (sheet.modify n fun node => { node with parent := none }) :=
      .modify low (fun _ => .inr rfl) fun _ _ _ => ⟨rfl, .inl rfl⟩
    have earlier : above < c := Nat.lt_of_lt_of_le before low
    exact cut.trans (.modify (Nat.le_of_lt earlier) (fun _ => .inl rfl) fun own => absurd own (Nat.ne_of_lt earlier))

/-- What happens to nodes behind all those there were at first does not matter. -/
theorem Local.extend {c : Nat} {before middle after : Sheet} (known : Local c before middle) (inside : c < before.size)
    (size : middle.size ≤ after.size) (same : ∀ n : Nat, n < before.size → after.nodes[n]? = middle.nodes[n]?) :
    Local c before after where
  size := Nat.le_trans known.size size
  ahead := fun n later low => (same n low).trans (known.ahead n later low)
  parent := by
    intro n low
    have kept : after.parent n = middle.parent n := by simp only [Sheet.parent, node_congr (same n low)]
    rw [kept]
    exact known.parent n low
  children := by
    rw [← known.children]
    simp only [Sheet.children, node_congr (same c inside)]
  comment := by
    rw [← known.comment]
    simp only [comment?, Sheet.content, node_congr (same c inside)]

/-! ## Nodes that come in -/

section
variable {sheet : Sheet} {n : Nat}

theorem parent_of_size_le (high : sheet.size ≤ n) : sheet.parent n = none := by
  simp only [Sheet.parent, Sheet.node, Array.getElem?_eq_none high, Option.getD_none]

theorem children_of_size_le (high : sheet.size ≤ n) : sheet.children n = [] := by
  simp only [Sheet.children, Sheet.node, Array.getElem?_eq_none high, Option.getD_none]

theorem lt_size_of_parent {above : Nat} (attached : sheet.parent n = some above) : n < sheet.size := by
  by_contra beyond
  rw [parent_of_size_le (Nat.le_of_not_lt beyond)] at attached
  cases attached

theorem lt_size_of_mem_children {child : Nat} (member : child ∈ sheet.children n) : n < sheet.size := by
  by_contra beyond
  rw [children_of_size_le (Nat.le_of_not_lt beyond)] at member
  cases member

/-- The sheet with a new node under `parent`, whose children become those that `place` gives. -/
def attach (sheet : Sheet) (parent : Nat) (content : Content) (spacing : Spacing) (place : List NodeId → List NodeId) : Sheet :=
  (⟨sheet.nodes.push { content, spacing, parent := some parent }⟩ : Sheet).modify parent fun node =>
    { node with children := place node.children }

@[simp] theorem size_attach (sheet : Sheet) (parent : Nat) (content : Content) (spacing : Spacing)
    (place : List NodeId → List NodeId) : (sheet.attach parent content spacing place).size = sheet.size + 1 := by
  simp [attach, Sheet.size, Sheet.modify]

theorem getElem?_attach {parent : Nat} (inside : parent < sheet.size) (content : Content) (spacing : Spacing)
    (place : List NodeId → List NodeId) (n : Nat) :
    (sheet.attach parent content spacing place).nodes[n]? =
      if n = sheet.size then some { content, spacing, parent := some parent }
      else if n = parent then sheet.nodes[n]?.map fun node => { node with children := place node.children }
      else sheet.nodes[n]? := by
  have pushed : ∀ node : Node, (sheet.nodes.push node)[n]? = if n = sheet.size then some node else sheet.nodes[n]? :=
    fun node => Array.getElem?_push
  simp only [attach, getElem?_modify, pushed]
  by_cases new : n = sheet.size
  · have other : parent ≠ n := by omega
    simp [new, new ▸ other]
  · simp only [if_neg new, eq_comm]

theorem node_attach {parent : Nat} (inside : parent < sheet.size) (content : Content) (spacing : Spacing)
    (place : List NodeId → List NodeId) (n : Nat) :
    (sheet.attach parent content spacing place).node n =
      if n = sheet.size then { content, spacing, parent := some parent }
      else if n = parent then { sheet.node n with children := place (sheet.children n) }
      else sheet.node n := by
  simp only [Sheet.node, Sheet.children, getElem?_attach inside]
  by_cases new : n = sheet.size
  · simp only [if_pos new, Option.getD_some]
  · by_cases own : n = parent
    · subst own
      simp only [if_neg new, if_true, Array.getElem?_eq_getElem (show n < sheet.nodes.size from inside), Option.map_some,
        Option.getD_some]
    · simp only [if_neg new, if_neg own]

/-- A node that comes in before another takes the next number and a place among the children of the other's parent. -/
theorem insertBefore?_eq_some {after : Sheet} {anchor id : Nat} {content : Content} {spacing : Spacing}
    (inserted : sheet.insertBefore? anchor content spacing = some (after, id)) :
    id = sheet.size ∧ ∃ above, sheet.parent anchor = some above ∧ anchor ∈ sheet.children above ∧
      after = sheet.attach above content spacing (placeBefore anchor sheet.size) := by
  unfold Sheet.insertBefore? at inserted
  split at inserted
  · cases inserted
  · rename_i above attached
    split at inserted
    · rename_i member
      cases inserted
      exact ⟨rfl, above, attached, member, rfl⟩
    · cases inserted

end

/-- A new node under a parent before `c` changes the parent, and no other node there was. -/
theorem Local.attach {c parent : Nat} {sheet : Sheet} (inside : c < sheet.size) (before : parent < c) (content : Content)
    (spacing : Spacing) (place : List NodeId → List NodeId) : Local c sheet (sheet.attach parent content spacing place) := by
  have listed : Local c sheet (sheet.modify parent fun node => { node with children := place node.children }) :=
    .modify (Nat.le_of_lt before) (fun _ => .inl rfl) fun own => absurd own (Nat.ne_of_lt before)
  refine listed.extend inside (by rw [size_modify, size_attach]; omega) ?_
  intro n low
  rw [getElem?_attach (Nat.lt_trans before inside), getElem?_modify, if_neg (Nat.ne_of_lt low)]
  simp only [eq_comm]

mutual
/-- Appended nodes have numbers behind all others. -/
theorem le_of_mem_appendItem (sheet : Sheet) (parent : Nat) :
    ∀ item, ∀ n ∈ (sheet.appendItem parent item).2, sheet.size ≤ n
  | .node content spacing children, n, member => by
    have size := append_size sheet parent content spacing
    rcases List.mem_cons.mp member with rfl | below
    · exact Nat.le_refl _
    · have := le_of_mem_appendItems (sheet.append parent content spacing).1 sheet.size (by omega) children n below
      omega

theorem le_of_mem_appendItems (sheet : Sheet) (parent : Nat) (inside : parent < sheet.size) :
    ∀ items, ∀ n ∈ (sheet.appendItems parent items).2, sheet.size ≤ n
  | item :: rest, n, member => by
    have size := (appendItem_grown sheet parent inside item).size
    rcases List.mem_append.mp member with first | later
    · exact le_of_mem_appendItem sheet parent item n first
    · have := le_of_mem_appendItems (sheet.appendItem parent item).1 parent (by omega) rest n later
      omega
end

/-- Items come in before `c` as new nodes, behind all others by their numbers. -/
theorem Local.insertItemsBefore {c : Nat} {sheet : Sheet} (inside : c < sheet.size)
    (descends : ∀ above : Nat, sheet.parent c = some above → above < c) (items : List Item) :
    Local c sheet (sheet.insertItemsBefore c items).1 ∧ ∀ n ∈ (sheet.insertItemsBefore c items).2, sheet.size ≤ n := by
  induction items generalizing sheet with
  | nil => exact ⟨.refl c sheet, fun n member => by cases member⟩
  | cons item rest ih =>
    obtain ⟨content, spacing, children⟩ := item
    rw [Sheet.insertItemsBefore]
    cases inserted : sheet.insertBefore? c content spacing with
    | none => exact ⟨.refl c sheet, fun n member => by cases member⟩
    | some found =>
      obtain ⟨middle, id⟩ := found
      obtain ⟨rfl, above, attached, -, placed⟩ := insertBefore?_eq_some inserted
      have first : Local c sheet middle := placed ▸ .attach inside (descends above attached) ..
      have size : middle.size = sheet.size + 1 := placed ▸ size_attach ..
      have grown := appendItems_grown middle sheet.size (by omega) children
      have filled : Local c sheet (middle.appendItems sheet.size children).1 := by
        refine first.extend inside (by rw [grown.size]; omega) ?_
        intro n low
        exact grown.others n (by omega) (by omega)
      have known : c < (middle.appendItems sheet.size children).1.size := Nat.lt_of_lt_of_le inside filled.size
      obtain ⟨others, numbers⟩ := ih known (by
        intro above attached
        rcases filled.parent c inside with same | cut
        · exact descends above (same ▸ attached)
        · rw [cut] at attached
          cases attached)
      refine ⟨filled.trans others, ?_⟩
      intro n member
      rcases List.mem_cons.mp member with rfl | below
      · exact Nat.le_refl _
      · rcases List.mem_append.mp below with inner | later
        · have := le_of_mem_appendItems middle sheet.size (by omega) children n inner
          omega
        · exact Nat.le_trans filled.size (numbers n later)

end Sheet

namespace Standard

/-! ## Runs and visits -/

/-- An open directive that the standard plugin has put there. -/
structure Genuine (entry : OpenDirective State) : Prop where
  opens : entry.invocation.opens = true
  control : ∀ control, entry.control = some control →
    control ∈ (plugin (.whole State)).controls ∧ control.name = entry.invocation.name

/-- A run that is about to visit number `k` of the sheet that it began with: it finds the nodes from there on as they
were, all that it remembers is about earlier nodes, and what the directives have noted is allowed. -/
structure Reached (sheet : Sheet) (allowed : Option Nat → Prop) (k : Nat) (run : Run State) : Prop where
  size : sheet.size ≤ run.scene.sheet.size
  ahead : ∀ n : Nat, k ≤ n → n < sheet.size → run.scene.sheet.nodes[n]? = sheet.nodes[n]?
  parent : ∀ n : Nat, n < sheet.size → run.scene.sheet.parent n = sheet.parent n ∨ run.scene.sheet.parent n = none
  handled : ∀ n ∈ run.scene.handled, n < k ∨ sheet.size ≤ n
  stack : ∀ entry ∈ run.stack, entry.invocation.source < k ∧ Genuine entry
  pending : ∀ waiting ∈ run.pending, waiting.2 < k
  noted : allowed run.store.ignoreEnd

/-- A run in the middle of its visit to node `c`, where `earlier` were the open directives when the visit began. -/
structure During (sheet : Sheet) (allowed : Option Nat → Prop) (c : Nat) (earlier : List (OpenDirective State))
    (run : Run State) : Prop extends Reached sheet allowed (c + 1) run where
  children : run.scene.sheet.children c = sheet.children c
  comment : run.scene.sheet.comment? c = sheet.comment? c
  opened : ∀ entry ∈ run.stack, entry ∈ earlier ∨ entry.invocation.source = c

section
variable {sheet : Sheet} {whole : Item} {allowed : Option Nat → Prop} {c : Nat} {earlier : List (OpenDirective State)}
  {run : Run State}

/-- A handler may change the sheet near the node, mark new nodes as done and note what is allowed. -/
theorem During.handle (during : During sheet allowed c earlier run) {store : State} {scene : Scene}
    (near : run.scene.sheet.Local c scene.sheet)
    (handled : ∀ n ∈ scene.handled, n ∈ run.scene.handled ∨ run.scene.sheet.size ≤ n) (noted : allowed store.ignoreEnd) :
    During sheet allowed c earlier { run with store := store, scene := scene } where
  size := Nat.le_trans during.size near.size
  ahead := fun n later inside => (near.ahead n later (Nat.lt_of_lt_of_le inside during.size)).trans (during.ahead n later inside)
  parent := by
    intro n inside
    rcases near.parent n (Nat.lt_of_lt_of_le inside during.size) with same | cut
    · rw [same]
      exact during.parent n inside
    · exact .inr cut
  handled := by
    intro n member
    rcases handled n member with known | new
    · exact during.handled n known
    · exact .inr (Nat.le_trans during.size new)
  stack := during.stack
  pending := during.pending
  noted := noted
  children := near.children.trans during.children
  comment := near.comment.trans during.comment
  opened := during.opened

/-- The sheet may change near the node. -/
theorem During.setSheet (during : During sheet allowed c earlier run) {changed : Sheet}
    (near : run.scene.sheet.Local c changed) : During sheet allowed c earlier (run.setSheet changed) :=
  during.handle near (fun _ member => .inl member) during.noted

/-- Directives may close, and the comment that is visited may open some. -/
theorem During.setStack (during : During sheet allowed c earlier run) {stack : List (OpenDirective State)}
    (known : ∀ entry ∈ stack, entry ∈ run.stack ∨ entry.invocation.source = c ∧ Genuine entry) :
    During sheet allowed c earlier { run with stack := stack } :=
  { during with
    stack := by
      intro entry member
      rcases known entry member with old | ⟨own, genuine⟩
      · exact during.stack entry old
      · exact ⟨own ▸ Nat.lt_succ_self _, genuine⟩
    opened := by
      intro entry member
      rcases known entry member with old | ⟨own, _⟩
      · exact during.opened entry old
      · exact .inr own }

theorem During.warn (during : During sheet allowed c earlier run) (kind : WarningKind) (node : NodeId) (message : Text) :
    During sheet allowed c earlier (run.warn kind node message) :=
  during.handle (.refl c _) (fun _ member => .inl member) during.noted

/-- Up to the node that is visited, parents come before their children. -/
theorem During.descends (holds : sheet.Holds whole) (inside : c < sheet.size) (during : During sheet allowed c earlier run)
    {n above : Nat} (low : n ≤ c) (attached : run.scene.sheet.parent n = some above) : above < n := by
  rcases during.parent n (Nat.lt_of_le_of_lt low inside) with same | cut
  · rw [same] at attached
    exact (holds.of_mem_children (holds.mem_children attached)).1
  · rw [cut] at attached
    cases attached

theorem During.stripSource (holds : sheet.Holds whole) (inside : c < sheet.size)
    (during : During sheet allowed c earlier run) {source : Nat} (low : source ≤ c) (preserve : Bool) :
    During sheet allowed c earlier (run.stripSource source preserve) := by
  unfold Run.stripSource
  split
  · exact during
  · exact during.setSheet (.remove low fun above attached => during.descends holds inside low attached)

theorem During.endDirective (holds : sheet.Holds whole) (inside : c < sheet.size)
    (during : During sheet allowed c earlier run) {entry : OpenDirective State} (source : entry.invocation.source ≤ c)
    {stack : List (OpenDirective State)} (known : ∀ entry ∈ stack, entry ∈ run.stack) :
    During sheet allowed c earlier (run.endDirective entry stack) :=
  (during.setStack fun entry member => .inl (known entry member)).stripSource holds inside source _

/-- Everything below the node is still in its place. -/
theorem During.lastBelow_eq (holds : sheet.Holds whole) (inside : c < sheet.size)
    (during : During sheet allowed c earlier run) : run.scene.sheet.lastBelow c = sheet.lastBelow c := by
  obtain ⟨parent, item, stored, room, _⟩ := holds.exists_stores inside
  have total := Sheet.count_eq item
  have size := during.size
  have below : run.scene.sheet.StoresAll c (c + 1) item.children :=
    stored.below.congr fun n low high => during.ahead n low (by omega)
  rw [Sheet.lastBelow, below.lastBelowWithin_eq (during.children.trans stored.children_eq) (by omega), Sheet.lastBelow,
    stored.below.lastBelowWithin_eq stored.children_eq (by omega)]

/-! ### Handlers -/

/-- Other options in force, or the warning that they cannot be used, leave the sheet alone. -/
theorem During.adopt (during : During sheet allowed c earlier run) (options : Options) {store : State}
    (noted : allowed store.ignoreEnd) {node : NodeId} :
    During sheet allowed c earlier
      { run with store := store, scene := (run.scene.adopt? options).getD (warnOptions run.scene node) } := by
  unfold Scene.adopt?
  split <;> exact during.handle (.refl c _) (fun _ known => .inl known) noted

theorem During.enter (holds : sheet.Holds whole) (inside : c < sheet.size) (during : During sheet allowed c earlier run)
    {control : Control State} (member : control ∈ (plugin (.whole State)).controls) (invocation : Invocation)
    (noted : control.interest.isSelfClosing = true ∨ allowed (some (sheet.lastBelow c))) :
    During sheet allowed c earlier (run.call (control.enter c invocation)).2 := by
  have here : c < run.scene.sheet.size := Nat.lt_of_lt_of_le inside during.size
  have descends : ∀ above : Nat, run.scene.sheet.parent c = some above → above < c :=
    fun _ attached => during.descends holds inside (Nat.le_refl c) attached
  obtain rfl | rfl | rfl | rfl | rfl := control_cases member
  · -- `ignore` may note the last node below this one.
    change During sheet allowed c earlier (run.call (enterIgnore (.whole State) c invocation)).2
    simp only [Run.call, enterIgnore]
    refine during.handle (.refl c _) (fun _ known => .inl known) ?_
    split
    · simp only [Slot.whole, during.lastBelow_eq holds inside]
      exact noted.resolve_left (by decide)
    · exact during.noted
  · -- `rename` changes the selector of the node.
    change During sheet allowed c earlier (run.call (enterRename c invocation)).2
    simp only [Run.call, enterRename]
    split
    · exact during.setSheet (.setSelector (Nat.le_refl c) _ _)
    · exact during
  · exact during.setSheet (.remove (Nat.le_refl c) descends)
  · -- `raw` puts nodes in before this one, or warns.
    change During sheet allowed c earlier (run.call (enterRaw c invocation)).2
    obtain ⟨fragment, _, _, listed, same⟩ | ⟨_, _, _, same⟩ := enterRaw_cases c invocation run.store run.scene <;>
      simp only [Run.call, same]
    · obtain ⟨near, numbers⟩ := Sheet.Local.insertItemsBefore here descends (fragment.item Sheet.root).children
      exact during.handle near (fun n known => ((listed n).mp known).imp_right (numbers n)) during.noted
    · exact during.warn _ _ _
  · -- `options` saves and replaces what the sheet does not depend on.
    change During sheet allowed c earlier (run.call (enterOptions (.whole State) c invocation)).2
    simp only [Run.call, enterOptions]
    cases Options.ofText .json invocation.argument with
    | ok replacing =>
      refine during.adopt replacing ?_
      exact during.noted
    | error => exact during.handle (.refl c _) (fun _ known => .inl known) during.noted

theorem During.leave (during : During sheet allowed c earlier run) {control : Control State}
    (member : control ∈ (plugin (.whole State)).controls) (invocation : Invocation) (clear : allowed none) :
    During sheet allowed c earlier (run.call (control.leave c invocation)).2 := by
  obtain rfl | rfl | rfl | rfl | rfl := control_cases member
  · -- `ignore` forgets the last node that it covers when it is over.
    change During sheet allowed c earlier (run.call (leaveIgnore (.whole State) c invocation)).2
    simp only [Run.call, leaveIgnore]
    split
    · exact during.handle (.refl c _) (fun _ known => .inl known) clear
    · exact during
  · exact during
  · exact during
  · exact during
  · -- `options` goes back to saved options.
    change During sheet allowed c earlier (run.call (leaveOptions (.whole State) c invocation)).2
    simp only [Run.call, leaveOptions]
    split
    · exact during
    · split
      · exact during.handle (.refl c _) (fun _ known => .inl known) during.noted
      · refine during.adopt _ ?_
        exact during.noted

/-! ### The gate -/

theorem During.ask (holds : sheet.Holds whole) (inside : c < sheet.size) (clear : allowed none)
    (last : allowed (some (sheet.lastBelow c))) (during : During sheet allowed c earlier run) (kind : Kind)
    {entry : OpenDirective State} (genuine : Genuine entry) :
    During sheet allowed c earlier (Run.ask c kind entry run).1 := by
  unfold Run.ask
  split
  · exact during
  · rename_i control found
    obtain ⟨member, _⟩ := genuine.control control found
    have entered := during.enter holds inside member entry.invocation (.inr last)
    simp only
    split
    · split
      · exact entered.leave member entry.invocation clear
      · exact entered
    · exact during

theorem During.consult (holds : sheet.Holds whole) (inside : c < sheet.size) (clear : allowed none)
    (last : allowed (some (sheet.lastBelow c))) (kind : Kind) {entries kept : List (OpenDirective State)}
    (during : During sheet allowed c earlier run) (known : ∀ entry ∈ kept ++ entries, entry ∈ run.stack) (claimed : Bool) :
    During sheet allowed c earlier (Run.consult c kind kept claimed entries run).2 := by
  induction entries generalizing run kept claimed with
  | nil => exact during.setStack fun entry member => .inl (known entry (by simpa using member))
  | cons entry rest ih =>
    obtain ⟨source, genuine⟩ := during.stack entry (known entry (by simp))
    have asked := during.ask holds inside clear last kind genuine
    have same := Run.stack_ask c kind entry run
    have fewer : ∀ other ∈ kept ++ rest, other ∈ (Run.ask c kind entry run).1.stack := by
      intro other member
      rw [same]
      refine known other ?_
      rcases List.mem_append.mp member with before | after
      · exact List.mem_append_left _ before
      · exact List.mem_append_right _ (List.mem_cons_of_mem _ after)
    rw [Run.consult_cons]
    simp only
    split
    · refine ih (asked.endDirective holds inside (Nat.le_of_lt_succ source) fewer) ?_ _
      rw [Run.stack_endDirective]
      exact fun other member => member
    · refine ih asked ?_ _
      rw [same]
      simpa using known

theorem Reached.not_mem_handled (inside : c < sheet.size) (reached : Reached sheet allowed c run) :
    c ∉ run.scene.handled := by
  intro member
  rcases reached.handled c member with earlier | new
  · exact Nat.lt_irrefl c earlier
  · exact Nat.not_le_of_lt inside new

theorem Reached.node_eq (inside : c < sheet.size) (reached : Reached sheet allowed c run) :
    run.scene.sheet.node c = sheet.node c :=
  Sheet.node_congr (reached.ahead c (Nat.le_refl c) inside)

theorem Reached.during (inside : c < sheet.size) (reached : Reached sheet allowed c run) :
    During sheet allowed c run.stack (run.marked c) where
  size := reached.size
  ahead := fun n later low => reached.ahead n (Nat.le_of_succ_le later) low
  parent := reached.parent
  handled := by
    intro n member
    rcases List.mem_cons.mp member with rfl | known
    · exact .inl (Nat.lt_succ_self _)
    · exact (reached.handled n known).imp_left Nat.lt_succ_of_lt
  stack := fun entry member => ⟨Nat.lt_succ_of_lt (reached.stack entry member).1, (reached.stack entry member).2⟩
  pending := fun waiting member => Nat.lt_succ_of_lt (reached.pending waiting member)
  noted := reached.noted
  children := by simp only [Run.sheet_marked, Sheet.children, reached.node_eq inside]
  comment := by simp only [Run.sheet_marked, Sheet.comment?, Sheet.content, reached.node_eq inside]
  opened := fun entry member => .inl member

theorem Reached.gate (holds : sheet.Holds whole) (inside : c < sheet.size) (clear : allowed none)
    (last : allowed (some (sheet.lastBelow c))) (reached : Reached sheet allowed c run) :
    During sheet allowed c run.stack (run.gate c).2 := by
  rw [Run.gate_eq_consult (reached.not_mem_handled inside)]
  exact (reached.during inside).consult holds inside clear last _ (fun entry member => member) _

/-! ### Comments -/

/-- A control directive that is not switched off is found by its name. -/
theorem lookup_of_enabled {inForce options : Options} {name : Text}
    (enabled : inForce.disables pluginName name = false) :
    (engine options).registry.lookup inForce name =
      match (plugin (.whole State)).controls.find? (·.name == name) with
      | some control => .found control
      | none => .missing := by
  change Registry.lookupIn inForce name [plugin (.whole State)] = _
  have other : ¬ inForce.disables (plugin (.whole State)).name name = true := by
    rw [show (plugin (.whole State)).name = pluginName from rfl, enabled]
    exact Bool.false_ne_true
  rw [Registry.lookupIn, if_neg other]
  cases (plugin (.whole State)).controls.find? (·.name == name) <;> rfl

theorem of_lookup_eq_found {inForce options : Options} {name : Text} {control : Control State}
    (found : (engine options).registry.lookup inForce name = .found control) :
    control ∈ (plugin (.whole State)).controls ∧ control.name = name := by
  change Registry.lookupIn inForce name [plugin (.whole State)] = .found control at found
  simp only [Registry.lookupIn] at found
  split at found
  · cases found
  · split at found
    · rename_i other listed
      cases found
      exact ⟨List.mem_of_find?_eq_some listed, by simpa using List.find?_some listed⟩
    · cases found

/-- Closing the innermost directive of a name leaves the others as they are. -/
theorem During.endNamed (holds : sheet.Holds whole) (inside : c < sheet.size) (during : During sheet allowed c earlier run)
    {name : Text} {before later stack : List (OpenDirective State)} {entry : OpenDirective State}
    (found : Run.lastNamed? name stack = some (before, entry, later)) (same : run.stack = stack) :
    During sheet allowed c earlier (run.endDirective entry (before ++ later)) := by
  obtain ⟨split, _⟩ := Run.mem_of_lastNamed? found
  have source := (during.stack entry (by rw [same, split]; simp)).1
  refine during.endDirective holds inside (Nat.le_of_lt_succ source) ?_
  intro other member
  rw [same, split]
  rcases List.mem_append.mp member with front | back
  · exact List.mem_append_left _ front
  · exact List.mem_append_right _ (List.mem_cons_of_mem _ back)

theorem During.push (during : During sheet allowed c earlier run) {entry : OpenDirective State}
    (source : entry.invocation.source = c) (genuine : Genuine entry) :
    During sheet allowed c earlier { run with stack := run.stack ++ [entry] } := by
  refine during.setStack ?_
  intro other member
  rcases List.mem_append.mp member with old | new
  · exact .inl old
  · rw [List.mem_singleton.mp new]
    exact .inr ⟨source, genuine⟩

theorem During.passOver (holds : sheet.Holds whole) (inside : c < sheet.size) (during : During sheet allowed c earlier run)
    (name : Text) {invocation : Invocation} (source : invocation.source = c) :
    During sheet allowed c earlier (run.passOver name invocation) := by
  unfold Run.passOver
  cases opens : invocation.opens with
  | true =>
    have warned := during.warn .disabled invocation.source
      ("directive \"".toList ++ name ++ '.' :: (invocation.name ++ "\" is blacklisted.".toList))
    cases invocation.closes with
    | true => exact warned
    | false => exact warned.push source ⟨opens, fun control none => by cases none⟩
  | false =>
    cases invocation.closes with
    | false => exact during
    | true =>
      simp only [Bool.false_eq_true, if_false]
      split
      · rename_i found
        exact during.endNamed holds inside found rfl
      · exact during

theorem During.obeyEnd (holds : sheet.Holds whole) (inside : c < sheet.size) (clear : allowed none)
    (during : During sheet allowed c earlier run) {invocation : Invocation} (source : invocation.source = c) :
    During sheet allowed c earlier (run.obeyEnd invocation) := by
  unfold Run.obeyEnd
  split
  · exact during.warn _ _ _
  · rename_i before entry later found
    cases asked : entry.control with
    | none =>
      simp only
      exact during.endNamed holds inside found rfl
    | some control =>
      obtain ⟨split, _⟩ := Run.mem_of_lastNamed? found
      obtain ⟨member, _⟩ := (during.stack entry (by rw [split]; simp)).2.control control asked
      have left := during.leave member invocation clear
      simp only [source]
      split
      · exact left.endNamed holds inside found rfl
      · exact left

theorem During.completes (holds : sheet.Holds whole) (inside : c < sheet.size) (clear : allowed none)
    (during : During sheet allowed c earlier run) {control : Control State}
    (member : control ∈ (plugin (.whole State)).controls) {invocation : Invocation} (source : invocation.source = c) :
    During sheet allowed c earlier (run.completes control invocation).2 := by
  unfold Run.completes
  split
  · rename_i itself
    have entered := during.enter holds inside member invocation (.inl itself)
    simp only [source]
    split
    · exact entered.leave member invocation clear
    · exact entered
  · exact during

theorem During.obey (holds : sheet.Holds whole) (inside : c < sheet.size) (clear : allowed none) (options : Options)
    (during : During sheet allowed c earlier run) (invocation : Invocation) (source : invocation.source = c) :
    During sheet allowed c earlier (Run.obey (engine options).registry run invocation).2 := by
  unfold Run.obey
  split
  · exact during.passOver holds inside _ source
  · exact during.warn _ _ _
  · rename_i control found
    obtain ⟨member, name⟩ := of_lookup_eq_found found
    cases opens : invocation.opens with
    | true =>
      have completed := during.completes holds inside clear member source
      simp only [if_true]
      split
      · exact completed
      · refine completed.push source ⟨opens, ?_⟩
        rintro _ ⟨⟩
        exact ⟨member, name⟩
    | false => exact during.obeyEnd holds inside clear source

theorem During.obeyForms (holds : sheet.Holds whole) (inside : c < sheet.size) (clear : allowed none) (options : Options)
    (during : During sheet allowed c earlier run) (preserve consumed : Bool) (forms : List Directive.Form) :
    During sheet allowed c earlier (Run.obeyForms (engine options).registry c preserve consumed forms run).2 := by
  induction forms generalizing run consumed with
  | nil => exact during
  | cons form rest ih =>
    unfold Run.obeyForms
    have obeyed := during.obey holds inside clear options
      { name := form.name, argument := form.argument, opens := form.opens, closes := form.closes, preserve, source := c } rfl
    simp only
    split
    · exact ih obeyed _
    · exact ih obeyed _
    · exact obeyed

theorem During.obeyComment (holds : sheet.Holds whole) (inside : c < sheet.size) (clear : allowed none) (options : Options)
    (during : During sheet allowed c earlier run) :
    During sheet allowed c earlier (Run.obeyComment (engine options).registry run c) := by
  unfold Run.obeyComment
  split
  · exact during
  · rename_i comment _
    have obeyed := during.obeyForms holds inside clear options (comment.preserve || !run.scene.options.clean) false comment.forms
    simp only
    split
    · exact obeyed.stripSource holds inside (Nat.le_refl c) _
    · exact obeyed

/-! ### Declarations and params -/

theorem During.countFlip (during : During sheet allowed c earlier run) : During sheet allowed c earlier run.countFlip :=
  { during with }

theorem During.flipParams (during : During sheet allowed c earlier run) :
    During sheet allowed c earlier (run.flipParams c) := by
  unfold Run.flipParams
  split
  · split
    · exact during.setSheet (.setParams (Nat.le_refl c) _ _)
    · exact during
  · exact during

theorem During.modifyDeclaration (during : During sheet allowed c earlier run) (change : Declaration → Declaration) :
    During sheet allowed c earlier { run with scene := run.scene.modifyDeclaration c change } :=
  during.setSheet (.modifyDeclaration (Nat.le_refl c) _ change)

theorem During.act (during : During sheet allowed c earlier run) {rule : MarkRule State}
    (member : rule ∈ (plugin (.whole State)).marks) : During sheet allowed c earlier (run.call (rule.act c)).2 := by
  have changes : ∀ name change?, During sheet allowed c earlier (run.call ((changing name change?).act c)).2 := by
    intro name change?
    simp only [Run.call, changing]
    split
    · exact during.modifyDeclaration _
    · exact during
  obtain rfl | rfl | rfl | rfl | rfl := mark_cases member
  · exact during
  · exact changes _ _
  · exact changes _ _
  · exact changes _ _
  · exact changes _ _

theorem During.obeyMarksFrom (during : During sheet allowed c earlier run) (source : Text) {rules : List (MarkRule State)}
    (known : ∀ rule ∈ rules, rule ∈ (plugin (.whole State)).marks) :
    During sheet allowed c earlier (Run.obeyMarksFrom c source rules run).2 := by
  induction rules generalizing run with
  | nil => exact during
  | cons rule rest ih =>
    have others : ∀ other ∈ rest, other ∈ (plugin (.whole State)).marks :=
      fun other member => known other (List.mem_cons_of_mem _ member)
    have acted := during.act (known rule List.mem_cons_self)
    unfold Run.obeyMarksFrom
    split
    · simp only
      split
      · split
        · exact (acted.modifyDeclaration _).countFlip
        · exact acted.countFlip
      · exact ih acted others
    · exact ih during others

theorem During.obeyMarks (during : During sheet allowed c earlier run) (options : Options) :
    During sheet allowed c earlier (Run.obeyMarks (engine options).registry run c).2 := by
  unfold Run.obeyMarks
  split
  · exact during
  · simp only
    split
    · refine during.obeyMarksFrom _ ?_
      intro rule member
      simpa [Registry.marks, engine] using member
    · exact during

theorem During.flipByRule (during : During sheet allowed c earlier run) (options : Options) :
    During sheet allowed c earlier (Run.flipByRule (engine options).registry run c) := by
  cases found : run.scene.sheet.declaration? c with
  | none =>
    unfold Run.flipByRule
    rw [found]
    exact during
  | some decl =>
    have outcome : Run.flipByRule (engine options).registry run c = _ := flipByRule_eq (rfl : run.scene.options = _) found
    rw [outcome]
    split
    · exact during
    · have content := Sheet.content_of_declaration? found
      refine (during.setSheet (.setContent (Nat.le_refl c) ?_ ?_)).countFlip
      · simp [Sheet.kind, content, Content.kind]
      · simp [Content.kind]

theorem During.setPending (during : During sheet allowed c earlier run) {pending : List (Text × NodeId)}
    (known : ∀ waiting ∈ pending, waiting ∈ run.pending ∨ waiting.2 < c + 1) :
    During sheet allowed c earlier { run with pending := pending } :=
  { during with
    pending := fun waiting member => (known waiting member).elim (during.pending waiting) id }

theorem During.renameRule (during : During sheet allowed c earlier run) {rule : Nat} (low : rule ≤ c) (selector : Text) :
    During sheet allowed c earlier (run.renameRule rule selector) := by
  unfold Run.renameRule
  simp only
  split
  · split
    · rename_i waiting pair found
      have known : pair ≤ c := Nat.le_of_lt_succ (during.pending _ (List.mem_of_find?_eq_some found))
      have both := during.setSheet (((Sheet.Local.setSelector known run.scene.sheet selector)).trans
        (.setSelector low _ (run.scene.map.apply .selector selector)))
      exact both.setPending fun other member => .inl (List.mem_of_mem_eraseP member)
    · refine during.setPending ?_
      intro waiting member
      rcases List.mem_append.mp member with old | new
      · exact .inl old
      · rw [List.mem_singleton.mp new]
        exact .inr (Nat.lt_succ_of_le low)
  · split
    · exact during
    · exact during.setSheet (.setSelector low _ _)

theorem During.renameAround (holds : sheet.Holds whole) (inside : c < sheet.size)
    (during : During sheet allowed c earlier run) : During sheet allowed c earlier (run.renameAround c) := by
  unfold Run.renameAround
  split
  · exact during
  · split
    · exact during
    · rename_i parent attached
      split
      · exact during
      · split
        · exact during.renameRule (Nat.le_of_lt (during.descends holds inside (Nat.le_refl c) attached)) _
        · exact during

theorem During.flipDeclaration (holds : sheet.Holds whole) (inside : c < sheet.size)
    (during : During sheet allowed c earlier run) (options : Options) :
    During sheet allowed c earlier (Run.flipDeclaration (engine options).registry run c) := by
  unfold Run.flipDeclaration
  have marked := during.obeyMarks options
  simp only
  split
  · exact marked.renameAround holds inside
  · exact (marked.flipByRule options).renameAround holds inside

/-! ### Visits -/

/-- A visit keeps to its node. -/
theorem Reached.visit (holds : sheet.Holds whole) (inside : c < sheet.size) (clear : allowed none)
    (last : allowed (some (sheet.lastBelow c))) (reached : Reached sheet allowed c run) (options : Options) :
    During sheet allowed c run.stack (Run.visit (engine options).registry run c) := by
  have passed := reached.gate holds inside clear last
  unfold Run.visit
  simp only
  split
  · split
    · exact passed.obeyComment holds inside clear options
    · exact { passed with }
    · exact passed.flipParams
    · exact passed.flipDeclaration holds inside options
    · exact passed
  · exact passed

theorem Reached.later {k : Nat} (reached : Reached sheet allowed c run) (later : c ≤ k) : Reached sheet allowed k run :=
  { reached with
    ahead := fun n low inside => reached.ahead n (Nat.le_trans later low) inside
    handled := fun n member => (reached.handled n member).imp_left fun low => Nat.lt_of_lt_of_le low later
    stack := fun entry member => ⟨Nat.lt_of_lt_of_le (reached.stack entry member).1 later, (reached.stack entry member).2⟩
    pending := fun waiting member => Nat.lt_of_lt_of_le (reached.pending waiting member) later }

end

/-- What `ignore` may have noted: a node with nothing below it. -/
def IsLeaf (sheet : Sheet) (mark : Option Nat) : Prop := ∀ n, mark = some n → n < sheet.size ∧ sheet.stop n = n + 1

theorem isLeaf_none (sheet : Sheet) : IsLeaf sheet none := by
  intro n impossible
  cases impossible

theorem isLeaf_lastBelow {sheet : Sheet} {whole : Item} (holds : sheet.Holds whole) {c : Nat} (inside : c < sheet.size) :
    IsLeaf sheet (some (sheet.lastBelow c)) := by
  rintro n ⟨⟩
  exact ⟨(holds.stop_bounds inside).2, holds.stop_lastBelow inside⟩

theorem lt_resume {sheet : Sheet} {whole : Item} (holds : sheet.Holds whole) {c : Nat} (inside : c < sheet.size)
    (run : Run State) : c < run.resume sheet c := by
  unfold Run.resume
  split
  · exact Nat.lt_succ_self c
  · exact (holds.stop_bounds inside).1

/-- Every visit finds what lies ahead of it as it was read. -/
theorem reached_invariant {sheet : Sheet} {whole : Item} (holds : sheet.Holds whole) (options : Options) :
    Run.Invariant (engine options).registry sheet (Reached sheet (IsLeaf sheet)) := by
  have visits : ∀ k run, Reached sheet (IsLeaf sheet) k run → k < sheet.size →
      During sheet (IsLeaf sheet) k run.stack (Run.visit (engine options).registry run k) :=
    fun k run reached inside =>
      reached.visit holds inside (isLeaf_none sheet) (isLeaf_lastBelow holds inside) options
  refine ⟨?_, ?_, ?_, ?_⟩
  · intro k run reached inside
    exact congrArg Node.parent (reached.node_eq inside)
  · intro k run reached inside
    exact (visits k run reached inside).children
  · intro run reached
    have top : sheet.parent Sheet.root = none := holds.1.parent_eq
    have inside : Sheet.root < sheet.size := Sheet.lt_size_of_getElem? holds.1.getElem?
    rcases (visits _ run reached inside).parent _ inside with same | cut
    · exact same
    · rw [cut, top]
  · intro k run reached inside
    exact (visits k run reached inside).toReached.later (lt_resume holds inside _)

theorem reached_start (options : Options) (sheet : Sheet) :
    Reached sheet (IsLeaf sheet) Sheet.root ((engine options).start sheet) where
  size := Nat.le_refl _
  ahead := fun _ _ _ => rfl
  parent := fun _ _ => .inl rfl
  handled := fun _ member => by cases member
  stack := fun _ member => by cases member
  pending := fun _ member => by cases member
  noted := isLeaf_none sheet

end Standard
end StyleFlip
