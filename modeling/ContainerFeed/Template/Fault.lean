import ContainerFeed.Path

/-!
# What can be wrong with a template

A template is refused for the first fault that is found: its text, its shape, one of its value
specs, or a path that does not lead where a default has to go. The wording of each fault is fixed
here and nowhere else.
-/

namespace ContainerFeed.Template

/-- What is wrong with a value spec. -/
inductive SpecFault where
  /-- A full spec without a text under the source key. -/
  | noSourceText
  /-- A compact spec without the source field. -/
  | noSourceField
  | emptySource
  | typeNotText
  | defaultNotScalar
  /-- A field of a compact spec without an equals sign. -/
  | notAnAssignment (field : String)
  | badDefault (raw kind : String)
  | unknownType (kind : String)
  deriving DecidableEq

/-- What is reported of a spec that cannot be read. -/
def SpecFault.message : SpecFault → String
  | .noSourceText => "missing string field 'src'"
  | .noSourceField => "missing field 'src'"
  | .emptySource => "'src' must not be empty"
  | .typeNotText => "'type' must be a string"
  | .defaultNotScalar => "'default' must be a scalar"
  | .notAnAssignment field => s!"expected key=value, got '{field}'"
  | .badDefault raw kind => s!"default '{raw}' is not a valid {kind}"
  | .unknownType kind => s!"unknown type '{kind}'"

/-- What is wrong with the shape of a template. -/
inductive ShapeFault where
  | rootNotAMap
  | noList (path : String)
  | notAList (path : String)
  | notOneElement (path : String) (found : Nat)
  deriving DecidableEq

/-- What is reported of a document of another shape. -/
def ShapeFault.message : ShapeFault → String
  | .rootNotAMap => "template root must be an object"
  | .noList path => s!"template has no {path} list"
  | .notAList path => s!"{path} must be a list"
  | .notOneElement path found =>
    s!"{path} must hold exactly one template element, found {found}"

/-- Why a template cannot be used. -/
inductive Fault where
  /-- The text is not a document. -/
  | notADocument
  | shape (fault : ShapeFault)
  | spec (path : String) (fault : SpecFault)
  /-- The file cannot be read as text. -/
  | unreadable
  | path (error : PathError)
  deriving DecidableEq

/-- What is reported of a template that is refused. -/
def Fault.message : Fault → String
  | .notADocument => "template is not valid JSON"
  | .shape fault => "template schema error: " ++ fault.message
  | .spec place fault => s!"invalid value spec at {place}: " ++ fault.message
  | .unreadable => "failed to read template file"
  | .path error => "template path error: " ++ error.message

end ContainerFeed.Template
