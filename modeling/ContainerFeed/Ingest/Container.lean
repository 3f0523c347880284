import ContainerFeed.Path

/-!
# Which container a measurement belongs to

The segment after the metric prefix names the container. One name stands for the host itself,
whose identifier and key are the root path.
-/

namespace ContainerFeed

/-- A container by its identifier and the key it is stored under. -/
structure ContainerRef where
  id : String
  key : String
  deriving DecidableEq

namespace ContainerRef

/-- The name that stands for the host itself. -/
def hostName : String :=
  "root"

/-- The host itself. -/
def host : ContainerRef :=
  ⟨Path.root, Path.root⟩

/-- The container with a name. -/
def ofName (name : String) : ContainerRef :=
  if name = hostName then host else ⟨name, "/" ++ name⟩

/-- What follows a leading text. -/
def after? (lead text : List Char) : Option (List Char) :=
  if lead.isPrefixOf text then some (text.drop lead.length) else none

/-- The first step of a text, after the slashes it begins with. -/
def firstStep (text : List Char) : List Char :=
  (text.dropWhile (· == '/')).takeWhile (· != '/')

/-- The container that a namespace text names after the metric prefix, if it names one. -/
def classify? (namespaceText metricPrefix : String) : Option ContainerRef :=
  match after? metricPrefix.toList namespaceText.toList with
  | none => none
  | some tail =>
    if firstStep tail = [] then none else some (ofName (String.ofList (firstStep tail)))

end ContainerRef

end ContainerFeed
