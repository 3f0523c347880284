import ContainerFeed.Node.InPlace
import ContainerFeed.Proofs.Document.Writing

/-!
# A failed change leaves the document alone

Changing a document in place comes to the same as computing the new document first and installing
it afterwards: the node that a change looks up is put back only after the change has succeeded.
-/

namespace ContainerFeed.Node

-- The steps of a path are only ever compared, never computed, in this file.
attribute [local irreducible] Path.segments Path.parentAndLeaf

/-- An edit at the end of some steps puts back what becomes of the node that it finds there. -/
theorem editAt_eq {α : Type} (missing : PathError) (edit : Node → Except PathError (α × Node))
    (node : Node) (p : List String) :
    node.editAt missing edit p = match node.follow? p with
      | none => .error missing
      | some inner => match edit inner with
        | .ok (result, edited) => .ok (result, node.putAt edited p)
        | .error e => .error e := by
  induction p generalizing node with
  | nil =>
    simp only [editAt, follow?, putAt]
    rcases edit node with e | ⟨result, edited⟩ <;> rfl
  | cons s p ih =>
    cases hchild : node.child? s with
    | none => simp [editAt, follow?, hchild]
    | some child =>
      simp only [editAt, follow?, putAt, hchild, ih]
      cases child.follow? p with
      | none => rfl
      | some inner => cases hedit : edit inner <;> simp [hedit]

/-- What a change in place answers and leaves, told from the outcome of computing a new document. -/
def installed {α : Type} (document : Node) :
    Except PathError (α × Node) → Except PathError α × Node
  | .ok (result, new) => (.ok result, new)
  | .error e => (.error e, document)

/-- A change in place leaves the edited document when it succeeds, and else the one it has found. -/
theorem on_edit {α : Type} (path : String) (change : Node → Except PathError (α × Node))
    (document : Node) :
    (Change.edit path change).on document =
      document.installed (document.editAt (.notFound path) change (Path.segments path)) := by
  have hget : StateT.run (ExceptT.run (get : Change Node)) document =
      pure (.ok document, document) := rfl
  simp only [Change.edit, Change.on, Change.settle, ExceptT.run_bind, ExceptT.run_mk,
    StateT.run_bind, pure_bind, hget, editAt_eq, seek]
  cases document.follow? (Path.segments path) with
  | none => rfl
  | some inner => cases hchange : change inner <;> simp only [hchange] <;> rfl

/-- Writing in place leaves the document with the value in it, or else the document as it was. -/
theorem on_setInPlace (document value : Node) (path : String) :
    (setInPlace path value).on document =
      document.installed ((document.set path value).map fun new => ((), new)) := by
  by_cases hlast : (Path.parentAndLeaf path).2 = ""
  · simp only [setInPlace, set, hlast, if_true]
    rfl
  · simp only [setInPlace, if_neg hlast, on_edit, set_eq_of_last hlast]
    cases document.editAt _ _ _ <;> rfl

/-- Removing in place leaves the document without the entry, or else the document as it was. -/
theorem on_removeInPlace (document : Node) (path : String) :
    (removeInPlace path).on document = document.installed (document.remove path) :=
  on_edit _ _ document

end ContainerFeed.Node
