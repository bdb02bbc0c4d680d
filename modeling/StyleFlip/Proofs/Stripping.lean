import StyleFlip.Proofs.Edits

/-!
Sheets without some of their comments. Two sheets may differ in that some comments of the one are cut off in the other
(`Sheet.Stripped`), whatever their nodes say. The last declaration of a rule is then the same in both
(`Stripped.isFinalOfKind_eq`), and the two stay alike when a comment more is cut off (`Stripped.strip`), when the same node is
cut off in both (`Stripped.remove`), and when the same items come in before a node that is not cut off
(`Stripped.insertItemsBefore`).
-/
namespace StyleFlip.Sheet

/-! ## Other content in the same places -/

/-- Two sheets whose nodes stand in the same places and are of the same kinds. -/
structure Similar (sheet other : Sheet) : Prop extends SameShape sheet other where
  kind : ∀ n, sheet.kind n = other.kind n
  spacing : ∀ n, (sheet.node n).spacing = (other.node n).spacing

theorem Similar.refl (sheet : Sheet) : Similar sheet sheet :=
  ⟨⟨rfl, fun _ => rfl, fun _ => rfl⟩, fun _ => rfl, fun _ => rfl⟩

theorem Similar.trans {first second third : Sheet} (one : Similar second first) (two : Similar third second) :
    Similar third first where
  toSameShape := two.toSameShape.trans one.toSameShape
  kind := fun n => (two.kind n).trans (one.kind n)
  spacing := fun n => (two.spacing n).trans (one.spacing n)

theorem Similar.modifyContent {sheet : Sheet} {c : Nat} {change : Content → Content}
    (keeps : (change (sheet.content c)).kind = sheet.kind c) : Similar (sheet.modifyContent c change) sheet where
  toSameShape := sameShape_modifyContent sheet c change
  kind := kind_modifyContent_of_keeps keeps
  spacing := by
    intro n
    simp only [Sheet.node, getElem?_modifyContent]
    cases sheet.nodes[n]? <;> rfl

theorem Similar.setContent {sheet : Sheet} {c : Nat} {content : Content} (same : content.kind = sheet.kind c) :
    Similar (sheet.setContent c content) sheet := by
  change Similar (sheet.modifyContent c fun _ => content) sheet
  exact .modifyContent same

/-! ## Comments that are cut off -/

/-- A sheet, and the same sheet with the comments in `gone` cut off. What nodes say may differ, except where they are to
agree, but not their kinds. -/
structure Stripped (gone : List Nat) (agree : Nat → Prop) (full bare : Sheet) : Prop where
  size : bare.size = full.size
  comments : ∀ n ∈ gone, full.kind n = .comment
  kind : ∀ n, bare.kind n = full.kind n
  content : ∀ n, agree n → bare.content n = full.content n
  spacing : ∀ n, (bare.node n).spacing = (full.node n).spacing
  parent : ∀ n, bare.parent n = if n ∈ gone then none else full.parent n
  children : ∀ n, bare.children n = (full.children n).filter (· ∉ gone)
  attached : ∀ n, ∀ child ∈ full.children n, full.parent child = some n

section
variable {gone : List Nat} {agree : Nat → Prop} {full bare : Sheet}

theorem Stripped.refl {sheet : Sheet} {whole : Item} (holds : sheet.Holds whole) : Stripped [] agree sheet sheet where
  size := rfl
  comments := fun _ member => by cases member
  kind := fun _ => rfl
  content := fun _ _ => rfl
  spacing := fun _ => rfl
  parent := fun _ => rfl
  children := fun n => by simp
  attached := fun _ _ member => (holds.of_mem_children member).2.2

theorem Stripped.not_mem_of_kind_ne (stripped : Stripped gone agree full bare) {n : Nat} (other : full.kind n ≠ .comment) : n ∉ gone :=
  fun member => other (stripped.comments n member)

theorem Stripped.parent_eq (stripped : Stripped gone agree full bare) {n : Nat} (other : full.kind n ≠ .comment) :
    bare.parent n = full.parent n := by
  rw [stripped.parent, if_neg (stripped.not_mem_of_kind_ne other)]

/-- Other content of the same kind on either side does not matter, except where the two are to agree. -/
theorem Stripped.similar (stripped : Stripped gone agree full bare) {full' bare' : Sheet} (one : Similar full' full)
    (two : Similar bare' bare) (same : ∀ n, agree n → bare'.content n = full'.content n) : Stripped gone agree full' bare' where
  size := by rw [one.size, two.size, stripped.size]
  comments := fun n member => by rw [one.kind, stripped.comments n member]
  kind := fun n => by rw [one.kind, two.kind, stripped.kind]
  content := same
  spacing := fun n => by rw [one.spacing, two.spacing, stripped.spacing]
  parent := fun n => by rw [one.parent, two.parent, stripped.parent]
  children := fun n => by rw [one.children, two.children, stripped.children]
  attached := fun n child member => by
    rw [one.children] at member
    rw [one.parent, stripped.attached n child member]

/-- Whether something of its sort stands behind `c` does not depend on what else is left out. -/
theorem any_tail_dropWhile_filter {keep sort : Nat → Bool} {c : Nat} (own : keep c = true)
    (sorted : ∀ n, sort n = true → keep n = true) (ids : List Nat) :
    ((ids.filter keep).dropWhile (· ≠ c)).tail.any sort = (ids.dropWhile (· ≠ c)).tail.any sort := by
  induction ids with
  | nil => rfl
  | cons first rest ih =>
    by_cases here : first = c
    · have same : (rest.filter keep).any sort = rest.any sort := by
        rw [List.any_filter]
        congr 1
        funext n
        cases kind : sort n with
        | false => simp
        | true => simp [sorted n kind]
      simpa [List.filter_cons, here, own] using same
    · rw [List.filter_cons]
      split <;> simpa [here] using ih

/-- A node other than a comment is the last one of its kind with or without the comments. -/
theorem Stripped.isFinalOfKind_eq (stripped : Stripped gone agree full bare) {n : Nat} (other : full.kind n ≠ .comment) :
    bare.isFinalOfKind n = full.isFinalOfKind n := by
  simp only [isFinalOfKind, stripped.parent_eq other]
  cases full.parent n with
  | none => rfl
  | some above =>
    simp only [stripped.children, stripped.kind]
    rw [any_tail_dropWhile_filter]
    · simpa using stripped.not_mem_of_kind_ne other
    · intro sibling same
      simp only [beq_iff_eq] at same
      simpa using stripped.not_mem_of_kind_ne (same ▸ other)

/-- One comment more may be cut off. -/
theorem Stripped.strip (stripped : Stripped gone agree full bare) {n : Nat} (comment : full.kind n = .comment) :
    Stripped (n :: gone) agree full (bare.remove n) where
  size := by rw [size_remove, stripped.size]
  comments := by
    intro m member
    rcases List.mem_cons.mp member with rfl | old
    · exact comment
    · exact stripped.comments m old
  kind := fun m => by simp only [Sheet.kind, content_remove]; exact stripped.kind m
  content := fun m same => by rw [content_remove, stripped.content m same]
  spacing := fun m => by rw [spacing_remove, stripped.spacing]
  parent := by
    intro m
    rw [parent_remove, stripped.parent]
    by_cases own : m = n <;> simp [own]
  children := by
    intro m
    have without : (full.children m).filter (· ∉ n :: gone) = (bare.children m).filter (· ≠ n) := by
      rw [stripped.children, List.filter_filter]
      refine List.filter_congr fun child _ => ?_
      simp
    rw [children_remove, without]
    split
    · rfl
    · rename_i elsewhere
      refine (List.filter_eq_self.mpr fun child member => ?_).symm
      rw [stripped.children, List.mem_filter] at member
      simp only [decide_eq_true_eq] at member ⊢
      rintro rfl
      exact elsewhere (by rw [stripped.parent, if_neg member.2, stripped.attached m child member.1])
  attached := stripped.attached

/-- The same node may be cut off on both sides. -/
theorem Stripped.remove (stripped : Stripped gone agree full bare) (n : Nat) :
    Stripped gone agree (full.remove n) (bare.remove n) where
  size := by rw [size_remove, size_remove, stripped.size]
  comments := fun m member => by simp only [Sheet.kind, content_remove]; exact stripped.comments m member
  kind := fun m => by simp only [Sheet.kind, content_remove]; exact stripped.kind m
  content := fun m same => by rw [content_remove, content_remove, stripped.content m same]
  spacing := fun m => by rw [spacing_remove, spacing_remove, stripped.spacing]
  parent := by
    intro m
    rw [parent_remove, parent_remove, stripped.parent]
    by_cases own : m = n <;> simp [own]
  children := by
    intro m
    rw [children_remove, children_remove, stripped.children, stripped.parent]
    by_cases cut : n ∈ gone
    · -- On the one side the node has been cut off before.
      rw [if_pos cut, if_neg (by simp)]
      split
      · rw [List.filter_filter]
        refine List.filter_congr fun child _ => ?_
        by_cases own : child = n <;> simp [own, cut]
      · rfl
    · rw [if_neg cut]
      split
      · rw [List.filter_filter, List.filter_filter]
        exact List.filter_congr fun child _ => Bool.and_comm _ _
      · rfl
  attached := by
    intro m child member
    rw [children_remove] at member
    have before : child ∈ full.children m := by
      split at member
      · exact (List.mem_filter.mp member).1
      · exact member
    have above := stripped.attached m child before
    rw [parent_remove, if_neg, above]
    rintro rfl
    rw [if_pos above] at member
    simpa using (List.mem_filter.mp member).2

/-! ## Nodes that come in -/

theorem Stripped.lt_size (stripped : Stripped gone agree full bare) {n : Nat} (member : n ∈ gone) : n < full.size := by
  by_contra outside
  have comment := stripped.comments n member
  simp only [Sheet.kind, Sheet.content, Sheet.node, Array.getElem?_eq_none (Nat.le_of_not_lt outside), Option.getD_none] at comment
  cases comment

theorem Stripped.attach (stripped : Stripped gone agree full bare) {parent : Nat} (inside : parent < full.size) (content : Content)
    (spacing : Spacing) {place : List NodeId → List NodeId}
    (commutes : ∀ ids, (place ids).filter (· ∉ gone) = place (ids.filter (· ∉ gone)))
    (members : ∀ ids, ∀ n ∈ place ids, n ∈ ids ∨ n = full.size) :
    Stripped gone agree (full.attach parent content spacing place) (bare.attach parent content spacing place) := by
  have known : parent < bare.size := by rw [stripped.size]; exact inside
  have nodes := node_attach inside content spacing place
  have others := node_attach known content spacing place
  have new : full.size ∉ gone := fun member => Nat.lt_irrefl _ (stripped.lt_size member)
  have outside : full.parent full.size = none := parent_of_size_le (Nat.le_refl _)
  rw [stripped.size] at others
  refine ⟨by rw [size_attach, size_attach, stripped.size], ?_, ?_, ?_, ?_, ?_, ?_, ?_⟩
  · intro n member
    have old : n ≠ full.size := fun here => new (here ▸ member)
    rw [← stripped.comments n member]
    simp only [Sheet.kind, Sheet.content, nodes, if_neg old]
    split <;> rfl
  · intro n
    have same := stripped.kind n
    simp only [Sheet.kind, Sheet.content, nodes, others] at same ⊢
    split
    · rfl
    · split <;> exact same
  · intro n alike
    have same := stripped.content n alike
    simp only [Sheet.content, nodes, others] at same ⊢
    split
    · rfl
    · split <;> exact same
  · intro n
    simp only [nodes, others]
    split
    · rfl
    · split <;> exact stripped.spacing n
  · intro n
    have same := stripped.parent n
    simp only [Sheet.parent, nodes, others] at same ⊢
    by_cases here : n = full.size
    · simp [here, new]
    · rw [if_neg here, if_neg here]
      split
      · exact same
      · exact same
  · intro n
    have same := stripped.children n
    simp only [Sheet.children, nodes, others] at same ⊢
    by_cases here : n = full.size
    · simp [here]
    · rw [if_neg here, if_neg here]
      split
      · rw [same, commutes]
      · exact same
  · intro n child member
    simp only [Sheet.children, Sheet.parent, nodes] at member ⊢
    by_cases here : n = full.size
    · simp [here] at member
    · rw [if_neg here] at member
      have up : child = full.size ∧ n = parent ∨ full.parent child = some n := by
        split at member
        · rename_i own
          rcases members _ child member with old | rfl
          · exact .inr (stripped.attached n child old)
          · exact .inl ⟨rfl, own⟩
        · exact .inr (stripped.attached n child member)
      rcases up with ⟨rfl, rfl⟩ | above
      · rw [if_pos rfl]
      · have old : child ≠ full.size := by
          rintro rfl
          rw [outside] at above
          cases above
        rw [if_neg old]
        split <;> exact above

theorem Stripped.append (stripped : Stripped gone agree full bare) {parent : Nat} (inside : parent < full.size) (content : Content)
    (spacing : Spacing) : Stripped gone agree (full.append parent content spacing).1 (bare.append parent content spacing).1 := by
  have new : full.size ∉ gone := fun member => Nat.lt_irrefl _ (stripped.lt_size member)
  have same : (bare.append parent content spacing).1 = bare.attach parent content spacing fun ids => ids ++ [full.size] := by
    rw [← stripped.size]
    rfl
  rw [same]
  change Stripped gone agree (full.attach parent content spacing fun ids => ids ++ [full.size]) _
  refine stripped.attach inside content spacing ?_ ?_
  · intro ids
    simp [List.filter_append, new]
  · intro ids n member
    simpa using member

end

mutual
theorem Stripped.appendItem {gone : List Nat} {agree : Nat → Prop} {full bare : Sheet}
    (stripped : Stripped gone agree full bare) {parent : Nat}
    (inside : parent < full.size) :
    ∀ item : Item, Stripped gone agree (full.appendItem parent item).1 (bare.appendItem parent item).1 ∧
      (bare.appendItem parent item).2 = (full.appendItem parent item).2
  | .node content spacing children => by
    have first := stripped.append inside content spacing
    have room : full.size < (full.append parent content spacing).1.size := by simp
    obtain ⟨below, numbers⟩ := first.appendItems room children
    simp only [Sheet.appendItem, append_snd, stripped.size]
    exact ⟨below, by rw [numbers]⟩

theorem Stripped.appendItems {gone : List Nat} {agree : Nat → Prop} {full bare : Sheet}
    (stripped : Stripped gone agree full bare) {parent : Nat}
    (inside : parent < full.size) :
    ∀ items : List Item, Stripped gone agree (full.appendItems parent items).1 (bare.appendItems parent items).1 ∧
      (bare.appendItems parent items).2 = (full.appendItems parent items).2
  | [] => ⟨stripped, rfl⟩
  | item :: rest => by
    obtain ⟨first, numbers⟩ := stripped.appendItem inside item
    have room : parent < (full.appendItem parent item).1.size := by
      rw [(appendItem_grown full parent inside item).size]
      omega
    obtain ⟨later, others⟩ := first.appendItems room rest
    simp only [Sheet.appendItems]
    exact ⟨later, by rw [numbers, others]⟩
end

theorem filter_placeBefore_of_kept {keep : Nat → Bool} {anchor id : Nat} (first : keep anchor = true) (second : keep id = true)
    (ids : List Nat) : (placeBefore anchor id ids).filter keep = placeBefore anchor id (ids.filter keep) := by
  induction ids with
  | nil => rfl
  | cons next rest ih =>
    by_cases here : next = anchor
    · simp [placeBefore, here, first, second]
    · by_cases kept : keep next = true
      · simp [placeBefore, here, kept, ih]
      · simp [placeBefore, here, kept, ih]

theorem mem_placeBefore {anchor id n : Nat} {ids : List Nat} (member : n ∈ placeBefore anchor id ids) : n ∈ ids ∨ n = id := by
  induction ids with
  | nil => cases member
  | cons first rest ih =>
    rw [placeBefore] at member
    split at member
    · simp only [List.mem_cons] at member ⊢
      tauto
    · rcases List.mem_cons.mp member with rfl | later
      · exact .inl List.mem_cons_self
      · exact (ih later).imp_left (List.mem_cons_of_mem _)

/-- The same items may come in before a node, unless it stands on one side only. -/
theorem Stripped.insertItemsBefore {gone : List Nat} {agree : Nat → Prop} {full bare : Sheet}
    (stripped : Stripped gone agree full bare) {anchor : Nat}
    (stands : anchor ∈ gone → full.parent anchor = none)
    (descends : ∀ above : Nat, full.parent anchor = some above → above < full.size) (items : List Item) :
    Stripped gone agree (full.insertItemsBefore anchor items).1 (bare.insertItemsBefore anchor items).1 ∧
      (bare.insertItemsBefore anchor items).2 = (full.insertItemsBefore anchor items).2 := by
  induction items generalizing full bare with
  | nil => exact ⟨stripped, rfl⟩
  | cons item rest ih =>
    obtain ⟨content, spacing, children⟩ := item
    cases above : full.parent anchor with
    | none =>
      -- The node stands on neither side.
      have gap : bare.parent anchor = none := by
        rw [stripped.parent, above, ite_self]
      simpa only [Sheet.insertItemsBefore, Sheet.insertBefore?, above, gap, and_true] using stripped
    | some parent =>
      have kept : anchor ∉ gone := fun cut => by simp [stands cut] at above
      have same : bare.parent anchor = some parent := by rw [stripped.parent, if_neg kept, above]
      have listed : anchor ∈ bare.children parent ↔ anchor ∈ full.children parent := by
        rw [stripped.children, List.mem_filter]
        simp [kept]
      by_cases present : anchor ∈ full.children parent
      · have inside := descends parent above
        have new : full.size ∉ gone := fun member => Nat.lt_irrefl _ (stripped.lt_size member)
        have first : Stripped gone agree (full.attach parent content spacing (placeBefore anchor full.size))
            (bare.attach parent content spacing (placeBefore anchor full.size)) :=
          stripped.attach inside content spacing
            (filter_placeBefore_of_kept (by simpa using kept) (by simpa using new)) fun _ _ => mem_placeBefore
        have room : full.size < (full.attach parent content spacing (placeBefore anchor full.size)).size := by
          simp
        obtain ⟨below, numbers⟩ := first.appendItems room children
        -- The node stays where it is, so the other items come in before it as well.
        have grown := appendItems_grown _ full.size room children
        have early : anchor < full.size := lt_size_of_parent above
        have stays : ((full.attach parent content spacing (placeBefore anchor full.size)).appendItems full.size children).1.parent
            anchor = some parent := by
          rw [← above, Sheet.parent, node_congr (grown.others anchor (by omega) (by omega)), node_attach inside,
            if_neg (Nat.ne_of_lt early), Sheet.parent]
          split <;> rfl
        obtain ⟨final, others⟩ := ih below (fun cut => absurd cut kept) fun other found => by
          rw [stays] at found
          cases found
          rw [grown.size]
          omega
        have one : full.insertBefore? anchor content spacing =
            some (full.attach parent content spacing (placeBefore anchor full.size), full.size) := by
          simp only [Sheet.insertBefore?, above, if_pos present]
          rfl
        have two : bare.insertBefore? anchor content spacing =
            some (bare.attach parent content spacing (placeBefore anchor full.size), full.size) := by
          simp only [Sheet.insertBefore?, same, if_pos (listed.mpr present), stripped.size]
          rfl
        simp only [Sheet.insertItemsBefore, one, two]
        exact ⟨final, by rw [numbers, others]⟩
      · have absent : anchor ∉ bare.children parent := fun member => present (listed.mp member)
        simpa only [Sheet.insertItemsBefore, Sheet.insertBefore?, above, same, if_neg present, if_neg absent, and_true] using
          stripped

end StyleFlip.Sheet
