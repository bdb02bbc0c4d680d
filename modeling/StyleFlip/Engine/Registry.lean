import StyleFlip.Engine.Plugin

/-!
Plugins in the order in which they were registered, and how a run finds what they bring: for a control directive the
first plugin that switches it off or has it decides, value directives are tried in turn, and the first flip rule that fits
a property is the rule for it.
-/
namespace StyleFlip

/-- How a control directive is found. -/
inductive Lookup (σ : Type) where
  | found (control : Control σ)
  /-- The plugin whose directive is switched off. -/
  | disabled (plugin : Text)
  | missing

/-- Plugins in the order in which they were registered. -/
structure Registry (σ : Type) where
  plugins : List (Plugin σ) := []

namespace Registry
variable {σ : Type}

/-- The control directive of a name among some plugins: the first plugin that switches it off or has it decides. -/
def lookupIn (options : Options) (name : Text) : List (Plugin σ) → Lookup σ
  | [] => .missing
  | plugin :: rest =>
    if options.disables plugin.name name then .disabled plugin.name
    else match plugin.controls.find? (·.name == name) with
      | some control => .found control
      | none => lookupIn options name rest

def lookup (registry : Registry σ) (options : Options) (name : Text) : Lookup σ :=
  lookupIn options name registry.plugins

/-- All value directives in the order in which they are tried. -/
def marks (registry : Registry σ) : List (MarkRule σ) := registry.plugins.flatMap (·.marks)

def ruleFor? (registry : Registry σ) (property : Text) : Option (FlipRule σ) :=
  (registry.plugins.flatMap (·.rules)).find? (·.fits property)

/-- The store after every control directive has forgotten what it kept. -/
def reset (registry : Registry σ) (store : σ) : σ :=
  (registry.plugins.flatMap (·.controls)).foldl (fun store control => control.reset store) store

end Registry
end StyleFlip
