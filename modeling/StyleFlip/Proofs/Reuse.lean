import StyleFlip.Proofs.Layout
import StyleFlip.Standard.Basic

/-!
Engines are used more than once. A run leaves behind what its handlers have put into the store: the end of an `ignore` that
never met it, the options of blocks that were never closed. The next run starts from the store after every directive has
forgotten what it kept, so what earlier runs have left can only be seen in what the directives do not forget.
-/
namespace StyleFlip
variable {σ : Type}

/-- Whatever stood in the store, the directives leave the same of it when they forget what they kept. -/
def Registry.Forgetful (registry : Registry σ) : Prop := ∀ one two, registry.reset one = registry.reset two

namespace Engine

/-- The engine after runs on a row of sheets, one after the other. -/
def after (engine : Engine σ) (history : List Sheet) : Engine σ :=
  history.foldl (fun engine sheet => (engine.flip sheet).2.2) engine

/-- A run changes nothing of its engine but the store. -/
theorem exists_flip_eq (engine : Engine σ) (sheet : Sheet) : ∃ store, (engine.flip sheet).2.2 = { engine with store := store } :=
  ⟨_, rfl⟩

theorem exists_after_eq (engine : Engine σ) (history : List Sheet) :
    ∃ store, engine.after history = { engine with store := store } := by
  induction history generalizing engine with
  | nil => exact ⟨engine.store, rfl⟩
  | cons sheet history ih =>
    obtain ⟨first, left⟩ := engine.exists_flip_eq sheet
    obtain ⟨store, later⟩ := ih { engine with store := first }
    refine ⟨store, ?_⟩
    calc engine.after (sheet :: history)
      _ = (engine.flip sheet).2.2.after history := rfl
      _ = { engine with store := store } := by rw [left, later]

/-- A run sees of the store only what is left of it when the directives have forgotten what they kept. -/
theorem flip_eq_of_reset {engine : Engine σ} {store : σ}
    (same : engine.registry.reset store = engine.registry.reset engine.store) (sheet : Sheet) :
    { engine with store := store }.flip sheet = engine.flip sheet := by
  simp only [flip, start, same]

theorem flip_after_of_forgetful {engine : Engine σ} (forgetful : engine.registry.Forgetful) (history : List Sheet)
    (sheet : Sheet) : (engine.after history).flip sheet = engine.flip sheet := by
  obtain ⟨store, left⟩ := engine.exists_after_eq history
  rw [left]
  exact flip_eq_of_reset (forgetful _ _) sheet

end Engine

namespace Standard

/-- Between them `ignore` and `options` forget all that the standard directives keep. -/
theorem forgetful_engine (options : Options) : (engine options).registry.Forgetful := fun _ _ => rfl

/-- Whatever was flipped before, and whatever it has left open, a run gives what the first run of a new engine gives: the
same sheet, the same report and an engine in the same state. -/
theorem flip_after_history (options : Options) (history : List Sheet) (sheet : Sheet) :
    ((engine options).after history).flip sheet = (engine options).flip sheet :=
  Engine.flip_after_of_forgetful (forgetful_engine options) history sheet

-- What is forgotten is there: an `ignore` whose rule was removed under it, and a block of options that was never closed.
example : ((Sheet.parse "/*rtl:begin:options:\x7b\x7d*//*rtl:begin:remove*//*rtl:ignore*/a\x7bb:c\x7d".toList).toOption.map
    fun sheet =>
      let store := ((engine {}).after [sheet]).store
      (store.ignoreEnd, store.saved.length)) = some (some 5, 1) := by decide +kernel

end Standard
end StyleFlip
