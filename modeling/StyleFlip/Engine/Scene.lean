import StyleFlip.Options.Basic
import StyleFlip.Sheet.Basic

/-!
The scene of a run: the sheet, the options in force with the string map made from them, the nodes that are done with,
and the warnings so far. Handlers may read and change all of it.
-/
namespace StyleFlip

inductive WarningKind where
  /-- A control directive that is switched off was opened. -/
  | disabled
  /-- No plugin has the directive. -/
  | unknown
  /-- A directive was closed that is not open. -/
  | strayEnd
  /-- A directive is still open at the end of the document. -/
  | stillOpen
  /-- A selector was not flipped because no rule carries the flipped one. -/
  | unpaired
  /-- A directive cannot make sense of its argument. -/
  | badArgument
deriving DecidableEq, Repr

structure Warning where
  kind : WarningKind
  node : NodeId
  message : Text
deriving DecidableEq, Repr

/-- What handlers see and may change. -/
structure Scene where
  sheet : Sheet
  /-- The options in force at this point of the document. -/
  options : Options
  /-- The string map in force. -/
  map : StringMap
  /-- The nodes that are done with. -/
  handled : List NodeId := []
  /-- The warnings so far, in the order in which they were raised. -/
  warnings : List Warning := []
deriving DecidableEq, Repr

namespace Scene

def warn (scene : Scene) (kind : WarningKind) (node : NodeId) (message : Text) : Scene :=
  { scene with warnings := scene.warnings ++ [{ kind, node, message }] }

def markHandled (scene : Scene) (node : NodeId) : Scene :=
  if node ∈ scene.handled then scene else { scene with handled := node :: scene.handled }

theorem markHandled_eq (scene : Scene) (node : NodeId) :
    ∃ handled, scene.markHandled node = { scene with handled } ∧ ∀ n, n ∈ handled ↔ n ∈ scene.handled ∨ n = node := by
  unfold markHandled
  split
  · rename_i known
    exact ⟨scene.handled, rfl, fun n => ⟨.inl, fun either => either.elim id (· ▸ known)⟩⟩
  · exact ⟨node :: scene.handled, rfl, fun n => by rw [List.mem_cons, or_comm]⟩

@[simp] theorem sheet_markHandled (scene : Scene) (node : NodeId) : (scene.markHandled node).sheet = scene.sheet := by
  obtain ⟨_, same, _⟩ := scene.markHandled_eq node
  rw [same]

/-- To mark nodes as done changes nothing else. -/
theorem foldl_markHandled_eq (scene : Scene) (nodes : List NodeId) :
    ∃ handled, nodes.foldl markHandled scene = { scene with handled } ∧ ∀ n, n ∈ handled ↔ n ∈ scene.handled ∨ n ∈ nodes := by
  induction nodes generalizing scene with
  | nil => exact ⟨scene.handled, rfl, by simp⟩
  | cons node rest ih =>
    obtain ⟨marked, same, own⟩ := scene.markHandled_eq node
    obtain ⟨handled, others, listed⟩ := ih (scene.markHandled node)
    refine ⟨handled, by rw [List.foldl_cons, others, same], ?_⟩
    intro n
    simp only [listed, same, own, List.mem_cons, or_assoc]

/-- The scene with other options in force; invalid options change nothing. -/
def adopt? (scene : Scene) (options : Options) : Option Scene :=
  match options.fault? with
  | some _ => none
  | none => some { scene with options := options, map := options.map }

def modifyDeclaration (scene : Scene) (node : NodeId) (change : Declaration → Declaration) : Scene :=
  { scene with sheet := scene.sheet.modifyDeclaration node change }

end Scene

end StyleFlip
