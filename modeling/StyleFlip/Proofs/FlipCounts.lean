import StyleFlip.Proofs.Closing

/-!
How flips are counted. Whatever the plugins do, neither the gate nor a comment nor a selector counts as a flip, and a visit
counts one flip at most (`flips_visit`). So the flips in a report are the nodes at whose visit one was counted
(`Engine.flips_flip`), and a node that is visited once is counted once or not at all (`count_counted`).
-/
namespace StyleFlip

namespace Run
variable {σ : Type}

/-! ## What counts as no flip -/

theorem flips_stripSource (run : Run σ) (source : NodeId) (preserve : Bool) : (run.stripSource source preserve).flips = run.flips := by
  unfold stripSource
  split <;> rfl

theorem flips_endDirective (run : Run σ) (entry : OpenDirective σ) (stack : List (OpenDirective σ)) :
    (run.endDirective entry stack).flips = run.flips := flips_stripSource _ _ _

theorem flips_ask (node : NodeId) (kind : Kind) (entry : OpenDirective σ) (run : Run σ) :
    (ask node kind entry run).1.flips = run.flips := by
  unfold ask
  split
  · rfl
  · simp only
    split
    · split <;> rfl
    · rfl

theorem flips_consult (node : NodeId) (kind : Kind) (kept : List (OpenDirective σ)) (claimed : Bool)
    (entries : List (OpenDirective σ)) (run : Run σ) : (consult node kind kept claimed entries run).2.flips = run.flips := by
  induction entries generalizing kept claimed run with
  | nil => rfl
  | cons entry rest ih =>
    rw [consult_cons]
    simp only
    split
    · rw [ih, flips_endDirective, flips_ask]
    · rw [ih, flips_ask]

/-- The gate counts nothing. -/
theorem flips_gate (run : Run σ) (node : NodeId) : (run.gate node).2.flips = run.flips := by
  unfold gate
  split
  · rfl
  · simp only [flips_consult]

theorem flips_passOver (run : Run σ) (plugin : Text) (invocation : Invocation) :
    (run.passOver plugin invocation).flips = run.flips := by
  have warned : (if invocation.opens then run.warn .disabled invocation.source
      ("directive \"".toList ++ plugin ++ '.' :: (invocation.name ++ "\" is blacklisted.".toList)) else run).flips = run.flips := by
    split <;> rfl
  unfold passOver
  simp only
  split
  · exact warned
  · split
    · rw [flips_endDirective]
      exact warned
    · exact warned
  · exact warned

theorem flips_obeyEnd (run : Run σ) (invocation : Invocation) : (run.obeyEnd invocation).flips = run.flips := by
  unfold obeyEnd
  split
  · rfl
  · rename_i entry later found
    cases entry.control with
    | none => exact flips_endDirective _ _ _
    | some control =>
      simp only
      split
      · exact flips_endDirective _ _ _
      · rfl

theorem flips_completes (run : Run σ) (control : Control σ) (invocation : Invocation) :
    (run.completes control invocation).2.flips = run.flips := by
  unfold completes
  split
  · simp only
    split <;> rfl
  · rfl

theorem flips_obey (registry : Registry σ) (run : Run σ) (invocation : Invocation) :
    (obey registry run invocation).2.flips = run.flips := by
  unfold obey
  split
  · exact flips_passOver _ _ _
  · rfl
  · split
    · simp only
      split <;> exact flips_completes _ _ _
    · exact flips_obeyEnd _ _

theorem flips_obeyForms (registry : Registry σ) (source : NodeId) (preserve consumed : Bool) (forms : List Directive.Form)
    (run : Run σ) : (obeyForms registry source preserve consumed forms run).2.flips = run.flips := by
  induction forms generalizing consumed run with
  | nil => rfl
  | cons form rest ih =>
    rw [obeyForms]
    simp only
    split
    · rw [ih, flips_obey]
    · rw [ih, flips_obey]
    · exact flips_obey _ _ _

/-- A comment counts nothing, whatever it opens and closes. -/
theorem flips_obeyComment (registry : Registry σ) (run : Run σ) (node : NodeId) :
    (obeyComment registry run node).flips = run.flips := by
  unfold obeyComment
  split
  · rfl
  · simp only
    split
    · rw [flips_stripSource, flips_obeyForms]
    · exact flips_obeyForms _ _ _ _ _ _

theorem flips_flipParams (run : Run σ) (node : NodeId) : (run.flipParams node).flips = run.flips := by
  unfold flipParams
  split
  · split <;> rfl
  · rfl

/-- A rule is renamed around a declaration, or nothing happens. -/
theorem renameAround_cases (run : Run σ) (node : NodeId) :
    run.renameAround node = run ∨ ∃ rule selector, run.renameAround node = run.renameRule rule selector := by
  unfold renameAround
  split
  · exact .inl rfl
  · split
    · exact .inl rfl
    · rename_i rule _
      split
      · exact .inl rfl
      · rename_i selector _
        split
        · exact .inr ⟨rule, selector, rfl⟩
        · exact .inl rfl

theorem counts_renameAround (run : Run σ) (node : NodeId) :
    (run.renameAround node).flips = run.flips ∧ (run.renameAround node).flipped = run.flipped := by
  rcases run.renameAround_cases node with same | ⟨rule, selector, renamed⟩
  · rw [same]
    exact ⟨rfl, rfl⟩
  · rw [renamed]
    unfold renameRule
    simp only
    split
    · split <;> exact ⟨rfl, rfl⟩
    · split <;> exact ⟨rfl, rfl⟩

/-! ## Visits -/

/-- A value directive that deals with a declaration counts one flip. -/
theorem flips_obeyMarksFrom (node : NodeId) (source : Text) (rules : List (MarkRule σ)) (run : Run σ) :
    (obeyMarksFrom node source rules run).2.flips = run.flips + if (obeyMarksFrom node source rules run).1 then 1 else 0 := by
  induction rules generalizing run with
  | nil => rfl
  | cons rule rest ih =>
    rw [obeyMarksFrom]
    split
    · simp only
      split
      · simp only [countFlip, if_true]
        split <;> rfl
      · exact ih _
    · exact ih run

theorem flips_obeyMarks (registry : Registry σ) (run : Run σ) (node : NodeId) :
    (obeyMarks registry run node).2.flips = run.flips + if (obeyMarks registry run node).1 then 1 else 0 := by
  unfold obeyMarks
  split
  · rfl
  · simp only
    split
    · exact flips_obeyMarksFrom _ _ _ _
    · rfl

theorem flips_flipByRule_le (registry : Registry σ) (run : Run σ) (node : NodeId) :
    (flipByRule registry run node).flips = run.flips ∨ (flipByRule registry run node).flips = run.flips + 1 := by
  unfold flipByRule
  split
  · exact .inl rfl
  · simp only
    split
    · exact .inl rfl
    · -- Insets may be exchanged before the rule is applied.
      split
      · split
        · exact .inl rfl
        · exact .inr rfl
      · split
        · exact .inl rfl
        · exact .inr rfl

/-- A visit counts one flip or none. -/
theorem flips_visit (registry : Registry σ) (run : Run σ) (node : NodeId) :
    (visit registry run node).flips = run.flips ∨ (visit registry run node).flips = run.flips + 1 := by
  rw [← flips_gate run node]
  unfold visit
  simp only
  split
  · split
    · exact .inl (flips_obeyComment _ _ _)
    · exact .inl rfl
    · exact .inl (flips_flipParams _ _)
    · have marks := flips_obeyMarks registry (run.gate node).2 node
      simp only [flipDeclaration, counts_renameAround]
      split
      · rename_i dealt
        rw [dealt] at marks
        exact .inr marks
      · rename_i left
        rw [if_neg left] at marks
        rw [← Nat.add_zero (run.gate node).2.flips, ← marks]
        exact flips_flipByRule_le _ _ _
    · exact .inl rfl
  · exact .inl rfl

/-- Those of the given nodes at whose visit a flip is counted. -/
def counted (registry : Registry σ) : List NodeId → Run σ → List NodeId
  | [], _ => []
  | node :: rest, run =>
    let later := counted registry rest (visit registry run node)
    if (visit registry run node).flips = run.flips then later else node :: later

theorem flips_foldl_visit (registry : Registry σ) (nodes : List NodeId) (run : Run σ) :
    (nodes.foldl (visit registry) run).flips = run.flips + (counted registry nodes run).length := by
  induction nodes generalizing run with
  | nil => rfl
  | cons node rest ih =>
    rw [List.foldl_cons, ih, counted]
    rcases flips_visit registry run node with same | more
    · rw [if_pos same, same]
    · rw [if_neg (by omega), more, List.length_cons]
      omega

theorem counted_append (registry : Registry σ) (front later : List NodeId) (run : Run σ) :
    counted registry (front ++ later) run =
      counted registry front run ++ counted registry later (front.foldl (visit registry) run) := by
  induction front generalizing run with
  | nil => rfl
  | cons node rest ih =>
    simp only [List.cons_append, counted, ih, List.foldl_cons]
    split <;> rfl

theorem counted_sublist (registry : Registry σ) (nodes : List NodeId) (run : Run σ) :
    (counted registry nodes run).Sublist nodes := by
  induction nodes generalizing run with
  | nil => exact .slnil
  | cons node rest ih =>
    rw [counted]
    split
    · exact (ih _).cons _
    · exact (ih _).cons_cons _

/-- A node at whose one visit the count grows is counted once. -/
theorem count_counted {registry : Registry σ} {front later : List NodeId} {node : NodeId} {run : Run σ}
    (once : (front ++ node :: later).Nodup)
    (grows : (visit registry (front.foldl (visit registry) run) node).flips ≠ (front.foldl (visit registry) run).flips) :
    (counted registry (front ++ node :: later) run).count node = 1 := by
  have listed : node ∈ counted registry (front ++ node :: later) run := by
    rw [counted_append, counted, if_neg grows]
    exact List.mem_append_right _ List.mem_cons_self
  exact List.count_eq_one_of_mem (once.sublist (counted_sublist _ _ _)) listed

end Run

theorem Engine.flips_flip {σ : Type} (engine : Engine σ) (sheet : Sheet) :
    (engine.flip sheet).2.1.flips = (Run.counted engine.registry (engine.trail sheet) (engine.start sheet)).length := by
  have traversed : Run.traverse engine.registry (engine.start sheet) =
      (engine.trail sheet).foldl (Run.visit engine.registry) (engine.start sheet) := Run.traverse_eq_foldl_trail _ _
  have total := Run.flips_foldl_visit engine.registry (engine.trail sheet) (engine.start sheet)
  rw [← traversed] at total
  exact total.trans (Nat.zero_add _)

end StyleFlip
