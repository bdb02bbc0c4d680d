import StyleFlip.Proofs.Stripping
import StyleFlip.Proofs.ValueMarks

/-!
Steps that only change what nodes say. To flip params, declarations and selectors rewrites nodes other than comments within
their kind (`Sheet.Reworded`), changes which rules wait and what is counted, and leaves everything else of a run alone
(`Run.Rewritten`).
-/
namespace StyleFlip

namespace Sheet

/-! ## Other words -/

/-- Nodes other than comments may say something else of the same kind. -/
structure Reworded (before after : Sheet) : Prop where
  similar : after.Similar before
  comment : ∀ n, before.kind n = .comment → after.content n = before.content n

theorem Reworded.refl (sheet : Sheet) : Reworded sheet sheet := ⟨.refl sheet, fun _ _ => rfl⟩

theorem Reworded.trans {first second third : Sheet} (one : Reworded first second) (two : Reworded second third) :
    Reworded first third where
  similar := one.similar.trans two.similar
  comment := fun n comment => (two.comment n ((one.similar.kind n).trans comment)).trans (one.comment n comment)

theorem Reworded.setContent {sheet : Sheet} {n : Nat} {content : Content} (same : content.kind = sheet.kind n)
    (plain : content.kind ≠ .comment) : Reworded sheet (sheet.setContent n content) := by
  refine ⟨.setContent same, ?_⟩
  intro m comment
  have other : n ≠ m := by
    rintro rfl
    exact plain (same.trans comment)
  simp only [Sheet.content, Sheet.node, Sheet.setContent, getElem?_modify, if_neg other]

theorem Reworded.setSelector (sheet : Sheet) (n : Nat) (selector : Text) : Reworded sheet (sheet.setSelector n selector) := by
  unfold Sheet.setSelector
  split
  · rename_i content
    exact .setContent (by simp [kind, content, Content.kind]) (by simp [Content.kind])
  · exact .refl sheet

theorem Reworded.setParams (sheet : Sheet) (n : Nat) (params : Text) : Reworded sheet (sheet.setParams n params) := by
  unfold Sheet.setParams
  split
  · rename_i content
    exact .setContent (by simp [kind, content, Content.kind]) (by simp [Content.kind])
  · exact .refl sheet

theorem Reworded.modifyDeclaration (sheet : Sheet) (n : Nat) (change : Declaration → Declaration) :
    Reworded sheet (sheet.modifyDeclaration n change) := by
  unfold Sheet.modifyDeclaration
  split
  · rename_i content
    exact .setContent (by simp [kind, content, Content.kind]) (by simp [Content.kind])
  · exact .refl sheet

theorem Reworded.comment? {before after : Sheet} (reworded : Reworded before after) (n : Nat) :
    after.comment? n = before.comment? n := by
  by_cases comment : before.kind n = .comment
  · simp only [Sheet.comment?, reworded.comment n comment]
  · have other : after.kind n ≠ .comment := by rwa [reworded.similar.kind n]
    rw [comment?_eq_none comment, comment?_eq_none other]

end Sheet

namespace Run

/-! ## Steps -/

section
variable {σ : Type} {run before after : Run σ}

/-- The same run, except that nodes other than comments may say something else of their kind, other rules may wait and another
number of flips may be counted. -/
def Rewritten (before after : Run σ) : Prop :=
  ∃ sheet pending flipped flips, before.scene.sheet.Reworded sheet ∧
    after = { before.setSheet sheet with pending := pending, flipped := flipped, flips := flips }

theorem Rewritten.recount (run : Run σ) (pending : List (Text × NodeId)) (flipped flips : Nat) :
    run.Rewritten { run with pending := pending, flipped := flipped, flips := flips } :=
  ⟨run.scene.sheet, pending, flipped, flips, .refl _, rfl⟩

theorem Rewritten.refl (run : Run σ) : run.Rewritten run := .recount run run.pending run.flipped run.flips

theorem Rewritten.trans {middle : Run σ} (one : before.Rewritten middle) (two : middle.Rewritten after) :
    before.Rewritten after := by
  obtain ⟨_, _, _, _, first, rfl⟩ := one
  obtain ⟨sheet, pending, flipped, flips, second, rfl⟩ := two
  exact ⟨sheet, pending, flipped, flips, first.trans second, rfl⟩

theorem Rewritten.setSheet {sheet : Sheet} (reworded : run.scene.sheet.Reworded sheet) : run.Rewritten (run.setSheet sheet) :=
  ⟨sheet, run.pending, run.flipped, run.flips, reworded, rfl⟩

theorem Rewritten.sheet (rewritten : before.Rewritten after) : before.scene.sheet.Reworded after.scene.sheet := by
  obtain ⟨_, _, _, _, reworded, rfl⟩ := rewritten
  exact reworded

theorem Rewritten.stack (rewritten : before.Rewritten after) : after.stack = before.stack := by
  obtain ⟨_, _, _, _, _, rfl⟩ := rewritten
  rfl

theorem rewritten_flipParams (run : Run σ) (node : NodeId) : run.Rewritten (run.flipParams node) := by
  unfold Run.flipParams
  split
  · split
    · exact .setSheet (.setParams _ _ _)
    · exact .refl run
  · exact .refl run

theorem rewritten_renameAround (run : Run σ) (node : NodeId) : run.Rewritten (run.renameAround node) := by
  have renames : ∀ rule selector, run.Rewritten (run.renameRule rule selector) := by
    intro rule selector
    unfold Run.renameRule
    simp only
    split
    · split
      · exact (Rewritten.setSheet ((Sheet.Reworded.setSelector _ _ _).trans (.setSelector _ _ _))).trans (.recount _ _ _ _)
      · exact .recount run _ _ _
    · split
      · exact .refl run
      · exact .setSheet (.setSelector _ _ _)
  unfold Run.renameAround
  split
  · exact .refl run
  · split
    · exact .refl run
    · split
      · exact .refl run
      · split
        · exact renames _ _
        · exact .refl run

end

end Run

namespace Standard

theorem rewritten_flipValue (options : Options) (run : Run State) (node : NodeId) :
    run.Rewritten (Run.flipValue (engine options).registry run node) := by
  cases found : run.scene.sheet.declaration? node with
  | none =>
    simp only [Run.flipValue, Run.obeyMarks, Run.flipByRule, found, Bool.false_eq_true, if_false]
    exact .refl run
  | some decl =>
    have content := Sheet.content_of_declaration? found
    obtain ⟨written, uniform⟩ := exists_flipValue_eq run.scene.options decl
    have outcome : Run.flipValue (engine options).registry run node = _ := uniform run node rfl content
    rw [outcome]
    split
    · refine (Run.Rewritten.setSheet (.setContent ?_ ?_)).trans (.recount _ _ _ _)
      · rw [Sheet.kind, content]
        rfl
      · simp [Content.kind]
    · exact .refl run

/-- To transform a node other than a comment changes what nodes say and what is counted. -/
theorem rewritten_transform (options : Options) {run : Run State} {node : NodeId}
    (other : run.scene.sheet.kind node ≠ .comment) : run.Rewritten (Run.transform (engine options).registry run node) := by
  unfold Run.transform
  split
  · rename_i comment
    exact absurd comment other
  · exact .recount run _ _ _
  · exact run.rewritten_flipParams node
  · exact (rewritten_flipValue options run node).trans (Run.rewritten_renameAround _ node)
  · exact .refl run

end Standard
end StyleFlip
