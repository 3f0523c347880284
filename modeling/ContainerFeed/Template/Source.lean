import ContainerFeed.Template.Builtin

/-!
# Where a template comes from

The text of a template is either the builtin one or the content of a file. Files are looked up
through a function given by the host, which answers with the content of those it can read as
text.
-/

namespace ContainerFeed.Template

/-- The origin of a template's text. -/
inductive Source where
  | builtin
  | file (path : String)
  deriving DecidableEq

namespace Source

/-- The option value that names the builtin template. -/
def builtinName : String :=
  "builtin"

/-- The origin that an option value names. -/
def ofOption (value : String) : Source :=
  if value = builtinName then .builtin else .file value

/-- The text of the template. -/
def load (source : Source) (fileText : String → Option String) : Except Fault String :=
  match source with
  | .builtin => .ok Builtin.source
  | .file path => match fileText path with
    | some text => .ok text
    | none => .error .unreadable

/-- The compiled template. -/
def compile (source : Source) (fileText : String → Option String) : Except Fault Template :=
  (source.load fileText).bind Template.compile

end Source

end ContainerFeed.Template
