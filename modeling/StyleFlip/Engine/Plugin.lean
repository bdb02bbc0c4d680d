import StyleFlip.Engine.Pattern
import StyleFlip.Engine.Scene

/-!
Plugins. A plugin brings control directives, which are opened and closed by comments and decide over the nodes in
between, value directives, which are marks inside a declaration, and flip rules for properties. Handlers share a store
of type `σ`, in which they keep what they like between calls, and the scene of the run.
-/
namespace StyleFlip

/-- A form of a directive as a run meets it. -/
structure Invocation where
  name : Text
  argument : Text
  opens : Bool
  closes : Bool
  /-- The directive is switched off. -/
  disabled : Bool := false
  /-- The comment stays even if directives are stripped. -/
  preserve : Bool
  /-- The comment that carries the form. -/
  source : NodeId
deriving DecidableEq, Repr

/-- Whether the form both opens and closes its directive. -/
def Invocation.opensAndCloses (invocation : Invocation) : Bool := invocation.opens && invocation.closes

/-- A step of a handler: it gives an answer and leaves the store and the scene behind. -/
abbrev Handler (σ α : Type) := σ → Scene → α × σ × Scene

/-- Which nodes a control directive is asked about. -/
inductive Interest where
  /-- Every node of these kinds while the directive is open. -/
  | kinds (wanted : List Kind)
  /-- Only the comment that carries the directive. -/
  | itself
deriving DecidableEq, Repr

namespace Interest

def accepts : Interest → Kind → Bool
  | .kinds wanted, kind => wanted.contains kind
  | .itself, _ => false

/-- Whether the directive is done within its own comment. -/
def isSelfClosing : Interest → Bool
  | .kinds _ => false
  | .itself => true

end Interest

structure Control (σ : Type) where
  name : Text
  interest : Interest
  /-- Called with a node of interest; the answer says whether the directive claims it. -/
  enter : NodeId → Invocation → Handler σ Bool
  /-- Called after `enter` for forms that close; the answer says whether the directive is closed. -/
  leave : NodeId → Invocation → Handler σ Bool
  /-- Forgets what was kept from an earlier run. -/
  reset : σ → σ

/-- A value directive: called with a declaration that carries its mark; the answer says whether it dealt with it. -/
structure MarkRule (σ : Type) where
  name : Text
  act : NodeId → Handler σ Bool

/-- The property and the value that a flip rule gives. -/
structure Flipped where
  property : Text
  value : Text
deriving DecidableEq, Repr

/-- A flip rule for the properties whose names fit. Comments in the value are placeholders. -/
structure FlipRule (σ : Type) where
  fits : Text → Bool
  flip : Text → Text → Scene → σ → Flipped × σ

/-- A named bundle of directives and flip rules. -/
structure Plugin (σ : Type) where
  name : Text
  controls : List (Control σ) := []
  marks : List (MarkRule σ) := []
  rules : List (FlipRule σ) := []

/-- What happens to the sheet before and after a run. -/
structure Hooks (σ : Type) where
  before : Sheet → σ → Sheet × σ := fun sheet store => (sheet, store)
  after : Sheet → σ → Sheet × σ := fun sheet store => (sheet, store)

/-- The place of one handler's state in a store. -/
structure Slot (σ τ : Type) where
  get : σ → τ
  set : τ → σ → σ

def Slot.whole (σ : Type) : Slot σ σ := ⟨id, fun value _ => value⟩

end StyleFlip
