import StyleFlip.Proofs.Pruning
import StyleFlip.Proofs.RawNodes

/-!
A sheet whose top-level items come into another sheet before an anchor. They stand right before the anchor, one after the other
(`Linked.getElem?_above`), and are stored behind all earlier nodes. As a subtree has no node twice
(`Linked.nodup_preorder`), the nodes of the fragment have numbers of their own in the other sheet, in document order, and the
copy of a node differs from it in the numbers of its parent and its children alone (`insertSheetBefore_copies`).
-/
namespace StyleFlip.Sheet
open Item

/-! ## Nodes of a subtree -/

section
variable {sheet : Sheet} (linked : sheet.Linked)
include linked

theorem Linked.le_of_mem_preorder {n m : Nat} (member : m ∈ sheet.preorder n) : n ≤ m := by
  induction n using linked.induction with
  | step n ih =>
    rw [linked.preorder_eq] at member
    rcases List.mem_cons.mp member with rfl | below
    · exact Nat.le_refl _
    · obtain ⟨child, listed, inside⟩ := List.mem_flatMap.mp below
      have larger := linked.lt_of_mem_children listed
      have later := ih child listed inside
      omega

/-- Every node of a subtree but its first has its parent in the subtree. -/
theorem Linked.parent_mem_preorder {n m : Nat} (member : m ∈ sheet.preorder n) (other : m ≠ n) :
    ∃ above ∈ sheet.preorder n, sheet.parent m = some above := by
  induction n using linked.induction with
  | step n ih =>
    rw [linked.preorder_eq] at member ⊢
    obtain ⟨child, listed, inside⟩ := List.mem_flatMap.mp ((List.mem_cons.mp member).resolve_left other)
    by_cases top : m = child
    · rw [top]
      exact ⟨n, List.mem_cons_self, (linked.mem_children_iff child n).mp listed⟩
    · obtain ⟨above, found, attached⟩ := ih child listed inside top
      exact ⟨above, List.mem_cons_of_mem _ (List.mem_flatMap.mpr ⟨child, listed, found⟩), attached⟩

/-- The subtrees at two siblings have no node in common. -/
theorem Linked.disjoint_preorder {n first second : Nat} (one : sheet.parent first = some n) (two : sheet.parent second = some n)
    (other : first ≠ second) : List.Disjoint (sheet.preorder first) (sheet.preorder second) := by
  intro m inFirst inSecond
  -- From a common node the way up through parents leads to one of the siblings, and then out of the other's subtree.
  induction m using Nat.strong_induction_on with
  | _ m ih =>
    have outside : ∀ {a b : Nat}, sheet.parent a = some n → sheet.parent b = some n → a ≠ b → a ∉ sheet.preorder b := by
      intro a b attached sibling differs member
      obtain ⟨above, inside, found⟩ := linked.parent_mem_preorder member differs
      obtain rfl : n = above := Option.some.inj (attached.symm.trans found)
      have low := linked.le_of_mem_preorder inside
      have high := linked.ascending b n sibling
      omega
    by_cases top : m = first
    · exact outside one two other (top ▸ inSecond)
    · by_cases last : m = second
      · exact outside two one (Ne.symm other) (last ▸ inFirst)
      · obtain ⟨above, inside, attached⟩ := linked.parent_mem_preorder inFirst top
        obtain ⟨same, also, found⟩ := linked.parent_mem_preorder inSecond last
        obtain rfl : above = same := Option.some.inj (attached.symm.trans found)
        exact ih above (linked.ascending m above attached) inside also

theorem Linked.nodup_preorder (n : Nat) : (sheet.preorder n).Nodup := by
  induction n using linked.induction with
  | step n ih =>
    rw [linked.preorder_eq, List.nodup_cons, List.nodup_flatMap]
    refine ⟨?_, ih, ?_⟩
    · intro member
      obtain ⟨child, listed, inside⟩ := List.mem_flatMap.mp member
      have larger := linked.lt_of_mem_children listed
      have later := linked.le_of_mem_preorder inside
      omega
    · refine (linked.nodup n).imp_of_mem ?_
      intro first second one two other
      exact linked.disjoint_preorder ((linked.mem_children_iff first n).mp one) ((linked.mem_children_iff second n).mp two) other

theorem Linked.ordered : Ordered sheet where
  children := fun n child listed => ⟨linked.lt_of_mem_children listed, lt_size_of_parent ((linked.mem_children_iff child n).mp listed)⟩
  parent := fun n child listed => (linked.mem_children_iff child n).mp listed

end

/-! ## Where items come in -/

theorem placeBefore_append {anchor : Nat} (id : Nat) {front : List Nat} (first : anchor ∉ front) (behind : List Nat) :
    placeBefore anchor id (front ++ anchor :: behind) = front ++ id :: anchor :: behind := by
  induction front with
  | nil => simp [placeBefore]
  | cons c front ih =>
    have differs : c ≠ anchor := fun same => first (same ▸ List.mem_cons_self)
    rw [List.cons_append, placeBefore, if_neg differs, ih fun member => first (List.mem_cons_of_mem _ member), List.cons_append]

/-- Items that come in before an anchor stand right before it among its siblings, in their order, and nothing else changes about
the parent. -/
theorem Linked.getElem?_above {sheet : Sheet} (linked : sheet.Linked) {anchor above : Nat} {front behind : List Nat}
    (attached : sheet.parent anchor = some above) (split : sheet.children above = front ++ anchor :: behind) (items : List Item) :
    (sheet.insertItemsBefore anchor items).1.nodes[above]? =
      some { sheet.node above with children := front ++ places sheet.size items ++ anchor :: behind } := by
  have inside : above < sheet.size := lt_size_of_mem_children ((linked.mem_children_iff anchor above).mpr attached)
  have own : sheet.nodes[above]? = some (sheet.node above) := by
    simp only [Sheet.node, Array.getElem?_eq_getElem (show above < sheet.nodes.size from inside), Option.getD_some]
  induction items generalizing sheet front with
  | nil =>
    rw [Sheet.insertItemsBefore, own, places, List.append_nil, ← split]
    rfl
  | cons item rest ih =>
    have first : anchor ∉ front := by
      have nodup := linked.nodup above
      rw [split, List.nodup_append] at nodup
      exact fun member => nodup.2.2 anchor member anchor List.mem_cons_self rfl
    obtain ⟨middle, came, onward⟩ := linked.insertItemsBefore_cons attached item
    have placed : middle.nodes[above]? =
        some { sheet.node above with children := front ++ [sheet.size] ++ anchor :: behind } := by
      rw [came.placed, own, Option.map_some, show (sheet.node above).children = _ from split, placeBefore_append _ first,
        List.append_assoc, List.singleton_append]
    have whole := node_eq_of_getElem? placed
    have later := ih came.linked came.anchored (by rw [children, whole]) (by rw [came.size]; omega) (by rw [placed, whole])
    rw [onward, later, whole, came.size, places]
    simp

/-! ## Copies -/

theorem length_flatMap_preorder (fragment : Sheet) (ids : List Nat) :
    (ids.flatMap fragment.preorder).length = countAll (ids.map fragment.item) := by
  induction ids with
  | nil => rfl
  | cons id ids ih => rw [List.flatMap_cons, List.length_append, ih, preorder, length_preorderWithin, List.map_cons, countAll, item]

/-- Numbers that run on from `start` on, one for each member of a list without repetitions. -/
theorem map_add_idxOf {ids : List Nat} (nodup : ids.Nodup) (start : Nat) :
    ids.map (fun id => start + ids.idxOf id) = List.range' start ids.length := by
  have whole := congrArg (List.map (start + ·)) (map_idxOf_self nodup)
  rw [List.map_map, List.range_eq_range', List.map_add_range', Nat.add_zero] at whole
  exact whole

/-- The nodes below the root of a sheet can be given numbers in a row, in document order, and the root one of its own. -/
theorem Linked.exists_numbering {fragment : Sheet} (whole : fragment.Linked) (above start : Nat) :
    ∃ copy : Nat → Nat, copy root = above ∧ ((fragment.children root).flatMap fragment.preorder).map copy =
      List.range' start (countAll ((fragment.children root).map fragment.item)) := by
  have apart := whole.nodup_preorder root
  rw [whole.preorder_eq] at apart
  obtain ⟨inner, nodup⟩ := List.nodup_cons.mp apart
  rw [← length_flatMap_preorder, ← map_add_idxOf nodup start]
  refine ⟨fun n => if n = root then above else start + List.idxOf n _, if_pos rfl, List.map_congr_left fun n member => if_neg ?_⟩
  rintro rfl
  exact inner member

/-- Where the subtrees below the root of a fragment are stored under `copy root`, with their nodes numbered by `copy`, each node
is copied. -/
theorem Linked.node_copy {fragment grafted : Sheet} (whole : fragment.Linked) {copy : Nat → Nat} {start : Nat}
    (stored : grafted.StoresAll (copy root) start ((fragment.children root).map fragment.item))
    (numbered : ((fragment.children root).flatMap fragment.preorder).map copy =
      List.range' start (countAll ((fragment.children root).map fragment.item))) :
    ∀ n ∈ (fragment.children root).flatMap fragment.preorder,
      grafted.node (copy n) =
          { fragment.node n with parent := (fragment.parent n).map copy, children := (fragment.children n).map copy } ∧
        ∀ child ∈ fragment.children n, child ∈ (fragment.children root).flatMap fragment.preorder := by
  obtain ⟨-, each⟩ := stored.places_eq_map numbered
  intro n member
  obtain ⟨top, listed, inside⟩ := List.mem_flatMap.mp member
  have attached : fragment.parent top = some root := (whole.mem_children_iff top root).mp listed
  obtain ⟨found, run⟩ := each top listed
  obtain ⟨same, closed⟩ := found.renumbered whole.ordered (lt_size_of_parent attached) (Nat.le_add_right _ _)
    (by rw [attached]; rfl) run n inside
  exact ⟨same, fun child below => List.mem_flatMap.mpr ⟨top, listed, closed child below⟩⟩

/-- A node whose copy, and the copies of all below it, differ in their numbers alone is copied with its whole subtree. -/
theorem Linked.item_copy {fragment grafted : Sheet} (whole : fragment.Linked) (linked : grafted.Linked) {copy : Nat → Nat}
    {nodes : List Nat}
    (each : ∀ n ∈ nodes, grafted.node (copy n) =
        { fragment.node n with parent := (fragment.parent n).map copy, children := (fragment.children n).map copy } ∧
      ∀ child ∈ fragment.children n, child ∈ nodes) {n : Nat} (member : n ∈ nodes) :
    grafted.item (copy n) = fragment.item n := by
  induction n using whole.induction with
  | step n ih =>
    obtain ⟨same, closed⟩ := each n member
    have below : (grafted.children (copy n)).map grafted.item = (fragment.children n).map fragment.item := by
      rw [children, same, List.map_map]
      exact List.map_congr_left fun child listed => ih child listed (closed child listed)
    rw [linked.item_eq, whole.item_eq, below, content, same]
    rfl

/-- The items of a sheet that come into another one before an anchor under a parent: the numbers given back are those of the new
nodes, in a row behind all earlier numbers; there is one for each node of the fragment below its root, in document order; the
copies of the top-level nodes stand right before the anchor in their order; the copy of a node is the node with all that stands
below it, but for the numbers; and of the earlier nodes only the parent of the anchor has changed, by these children. Before
an anchor without a parent nothing comes in. -/
theorem insertSheetBefore_copies {sheet fragment : Sheet} (linked : sheet.Linked) (whole : fragment.Linked) (anchor : Nat) :
    let grafted := (sheet.insertSheetBefore anchor fragment).1
    let ids := (sheet.insertSheetBefore anchor fragment).2
    (∀ above : Nat, sheet.parent anchor = some above →
      ids = List.range' sheet.size ids.length ∧ grafted.size = sheet.size + ids.length ∧
      grafted.parent anchor = some above ∧
      (∀ n : Nat, n < sheet.size → n ≠ above → grafted.node n = sheet.node n) ∧
      ∃ (copy : NodeId → NodeId) (front behind : List NodeId),
        sheet.children above = front ++ anchor :: behind ∧
        grafted.node above =
          { sheet.node above with children := front ++ (fragment.children root).map copy ++ anchor :: behind } ∧
        ids = (fragment.preorder root).tail.map copy ∧ copy root = above ∧
        ∀ n ∈ (fragment.preorder root).tail,
          grafted.item (copy n) = fragment.item n ∧
          grafted.node (copy n) =
            { fragment.node n with parent := (fragment.parent n).map copy, children := (fragment.children n).map copy }) ∧
    (sheet.parent anchor = none → grafted = sheet ∧ ids = []) := by
  have inserted : sheet.insertSheetBefore anchor fragment =
      sheet.insertItemsBefore anchor ((fragment.children root).map fragment.item) := by
    rw [insertSheetBefore, whole.item_eq]
    rfl
  rw [inserted]
  intro grafted ids
  refine ⟨?_, ?_⟩
  · intro above attached
    have upper : above < anchor := linked.ascending anchor above attached
    have known : anchor < sheet.size := lt_size_of_parent attached
    obtain ⟨front, behind, split⟩ := List.append_of_mem ((linked.mem_children_iff anchor above).mpr attached)
    obtain ⟨size, stored, numbers⟩ := linked.insertItemsBefore attached ((fragment.children root).map fragment.item)
    have placed := linked.getElem?_above attached split ((fragment.children root).map fragment.item)
    have kept : ∀ n : Nat, n < sheet.size → n ≠ above → grafted.node n = sheet.node n := by
      intro n inside other
      refine node_congr (getElem?_insertItemsBefore inside ?_ known _)
      rw [attached]
      exact fun same => other (Option.some.inj same).symm
    obtain ⟨copy, top, numbered⟩ := whole.exists_numbering above sheet.size
    have tail : (fragment.preorder root).tail = (fragment.children root).flatMap fragment.preorder := by
      rw [whole.preorder_eq, List.tail_cons]
    have listed : ids = ((fragment.children root).flatMap fragment.preorder).map copy := numbers.trans numbered.symm
    have count : ids.length = countAll ((fragment.children root).map fragment.item) := by
      rw [listed, numbered, List.length_range']
    rw [← top] at stored
    obtain ⟨tops, -⟩ := stored.places_eq_map numbered
    have each := whole.node_copy stored numbered
    refine ⟨?_, ?_, ?_, kept, copy, front, behind, split, ?_, ?_, top, ?_⟩
    · rw [count]
      exact numbers
    · rw [count]
      exact size
    · rw [Sheet.parent, kept anchor known (Nat.ne_of_gt upper)]
      exact attached
    · rw [node_eq_of_getElem? placed, ← tops]
      rfl
    · rw [tail, listed]
    · intro n member
      rw [tail] at member
      exact ⟨whole.item_copy (linked.extends (extends_insertItemsBefore sheet anchor _)) each member, (each n member).1⟩
  · intro detached
    have nothing := insertItemsBefore_of_detached detached ((fragment.children root).map fragment.item)
    exact ⟨congrArg Prod.fst nothing, congrArg Prod.snd nothing⟩

/-- A rule and a comment come in before the declaration of another rule. -/
theorem insertSheetBefore_copies_rule :
    ∃ sheet fragment, parse "a\x7bb:c\x7d".toList = .ok sheet ∧ parse "x\x7by:z\x7d/*k*/".toList = .ok fragment ∧
      sheet.parent 2 = some 1 ∧ (sheet.insertSheetBefore 2 fragment).2 = [3, 4, 5] ∧
      (sheet.insertSheetBefore 2 fragment).1.children 1 = [3, 5, 2] ∧
      (sheet.insertSheetBefore 2 fragment).1.item 3 = fragment.item 1 ∧
      (sheet.insertSheetBefore 2 fragment).1.parent 4 = some 3 := by
  obtain ⟨sheet, parsed, test⟩ := exists_of_readable
    (by decide +kernel : (parse "a\x7bb:c\x7d".toList).toOption.any (fun sheet =>
      sheet.size == 3 && sheet.parent 2 == some 1 && sheet.children 1 == [2]) = true)
  obtain ⟨fragment, read, form⟩ := exists_of_readable
    (by decide +kernel : (parse "x\x7by:z\x7d/*k*/".toList).toOption.any (fun fragment =>
      fragment.preorder root == [0, 1, 2, 3] && fragment.children root == [1, 3] && fragment.parent 2 == some 1) = true)
  simp only [Bool.and_eq_true, beq_iff_eq] at test form
  obtain ⟨⟨size, attached⟩, only⟩ := test
  obtain ⟨⟨order, tops⟩, upper⟩ := form
  obtain ⟨given, _⟩ := insertSheetBefore_copies (Built.parsed parsed).linked (Built.parsed read).linked 2
  obtain ⟨row, _, _, _, copy, front, behind, split, placed, ids, _, each⟩ := given 1 attached
  rw [order, List.tail_cons] at ids each
  rw [ids, size] at row
  obtain ⟨first, second, third⟩ : copy 1 = 3 ∧ copy 2 = 4 ∧ copy 3 = 5 := by simpa [List.range'] using row
  obtain ⟨rfl, rfl⟩ : front = [] ∧ behind = [] := by
    rw [only] at split
    cases front with
    | nil => exact ⟨rfl, (List.cons.inj split).2.symm⟩
    | cons => simp at split
  refine ⟨sheet, fragment, parsed, read, attached, ?_, ?_, ?_, ?_⟩
  · simp [ids, first, second, third]
  · simp [Sheet.children, placed, show (fragment.node root).children = [1, 3] from tops, first, third]
  · rw [← first]
    exact (each 1 (by simp)).1
  · rw [← second, Sheet.parent, (each 2 (by simp)).2, upper, ← first]
    rfl

end StyleFlip.Sheet
