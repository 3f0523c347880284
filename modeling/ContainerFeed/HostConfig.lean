import ContainerFeed.Options
import ContainerFeed.Text.Octets
import ContainerFeed.Yaml.Reader
import ContainerFeed.Yaml.Resolution

/-!
# The configuration of the host process

The host process reads a YAML file: the port of its ingest surface, whether to set the publisher
up before the first batch, and the options of the publisher. A file that is missing, or that does
not fit in any respect, counts as empty, so that the configuration is then the default one.
-/

namespace ContainerFeed

/-- The configuration of the host process. -/
structure HostConfig where
  ingestPort : UInt16
  eagerStart : Bool
  options : Options

namespace HostConfig

/-- The configuration that an empty file stands for. -/
def default : HostConfig :=
  ⟨8778, false, []⟩

/-- The text of a scalar, whatever it stands for. -/
def scalarText? : Yaml.Value → Option String
  | .plain text => some text
  | .quoted text => some text
  | _ => none

/-- A port number, written as a whole number without quotes. -/
def port? : Yaml.Value → Option UInt16
  | .plain text => (Yaml.unsigned? text.toList).bind fun n =>
      if n < 65536 then some (UInt16.ofNat n) else none
  | _ => none

/-- A truth value, written as one of its words without quotes. -/
def truth? : Yaml.Value → Option Bool
  | .plain text => Yaml.truth? text
  | _ => none

/-- The value of an option. Null and numbers of more than 64 bits are none. -/
def optionValue? : Yaml.Value → Option OptionValue
  | .quoted text => some (.text text)
  | .plain text => match Yaml.resolve text with
    | .null => none
    | .bool value => some (.bool value)
    | .uint value => match Text.int64OfInt? value.toNat with
      | some number => some (.int number)
      | none => some (.float (Binary64.ofNat value.toNat))
    | .int value => some (.int value)
    | .float value => some (.float value)
    | .wide => none
    | .text value => some (.text value)
  | _ => none

/-- The options of a map, or none where nothing is written. Of two values for one name the later
stays. -/
def options? : Yaml.Value → Option Options
  | .plain text => if text = "" then some [] else none
  | .map fields => (fields.mapM fun (key, value) => do
      return (← scalarText? key, ← optionValue? value)).map Keyed.ofList
  | _ => none

/-- The value of a field, or a default. A field may not be repeated. -/
def field? {α : Type} (fields : List (String × Yaml.Value)) (name : String)
    (read : Yaml.Value → Option α) (default : α) : Option α :=
  match fields.filter (fun entry => entry.1 = name) with
  | [] => some default
  | [(_, value)] => read value
  | _ => none

/-- The configuration of a document. Fields of other names do not count. -/
def ofValue? : Yaml.Value → Option HostConfig
  | .plain text => if text = "" then some default else none
  | .map fields => do
    let fields ← fields.mapM fun (key, value) => do return (← scalarText? key, value)
    let ingestPort ← field? fields "ingest_port" port? default.ingestPort
    let eagerStart ← field? fields "eager_start" truth? default.eagerStart
    let options ← field? fields "options" options? default.options
    return ⟨ingestPort, eagerStart, options⟩
  | _ => none

/-- The configuration that a text spells. -/
def ofText (text : String) : HostConfig :=
  ((Yaml.read? text).bind ofValue?).getD default

/-- The configuration of a file with some content, or of a missing one. -/
def ofFile : Option (List UInt8) → HostConfig
  | some content => ofText ((Text.ofOctets? content).getD "")
  | none => default

end HostConfig

end ContainerFeed
