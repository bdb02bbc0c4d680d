import StyleFlip.Engine.Basic
import StyleFlip.Standard.Control
import StyleFlip.Standard.Rules
import StyleFlip.Standard.Value

/-!
The standard plugin with everything that it brings, and an engine that has it.
-/
namespace StyleFlip.Standard
variable {σ : Type}

/-- The name of the standard plugin in a blacklist. -/
def pluginName : Text := "rtlcss".toList

/-- The standard plugin, with its state in a place of the store. -/
def plugin (slot : Slot σ State) : Plugin σ where
  name := pluginName
  controls := [ignore slot, rename, remove, raw, options slot]
  marks := [keepValue, prepend, append, insert, replace]
  rules := [directions, sideKeywords, edgeShorthands, radii, resizeCursors, sidedProperties]

theorem control_cases {slot : Slot σ State} {control : Control σ} (member : control ∈ (plugin slot).controls) :
    control = ignore slot ∨ control = rename ∨ control = remove ∨ control = raw ∨ control = options slot := by
  simpa only [plugin, List.mem_cons, List.not_mem_nil, or_false] using member

theorem mark_cases {slot : Slot σ State} {rule : MarkRule σ} (member : rule ∈ (plugin slot).marks) :
    rule = keepValue ∨ rule = prepend ∨ rule = append ∨ rule = insert ∨ rule = replace := by
  simpa only [plugin, List.mem_cons, List.not_mem_nil, or_false] using member

def engine (options : Options) : Engine State where
  registry := ⟨[plugin (.whole State)]⟩
  options := options
  store := {}

@[simp] theorem sheet_start (options : Options) (sheet : Sheet) : ((engine options).start sheet).scene.sheet = sheet := rfl

def flipText (options : Options) (text : Text) : Except ParseError (Text × Report) :=
  ((engine options).flipText text).map fun (text, report, _) => (text, report)

end StyleFlip.Standard
