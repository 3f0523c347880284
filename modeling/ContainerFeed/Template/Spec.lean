import ContainerFeed.Node
import ContainerFeed.Template.Fault
import ContainerFeed.Text.Blank

/-!
# Value specs

A leaf of a template may be a value spec: it names the end of the namespaces whose measurements
are written there, and the value the place has until then. A full spec is a map that holds the
marker; a compact spec is a text that begins with it and lists its fields between semicolons.
-/

namespace ContainerFeed.Template

/-- The rule that sends measurements to one place of a region. -/
structure Spec where
  /-- The end of the namespaces it applies to. -/
  source : String
  /-- The path inside the region that the value goes to. -/
  target : String
  /-- The value before any measurement arrives. -/
  default : Option Scalar
  /-- The table keys of further specs with the same source. -/
  aliases : List String
  deriving DecidableEq

namespace Spec

/-- The key that makes a map a full spec. -/
def marker : String :=
  "__tmpl"

/-- What a compact spec begins with. -/
def compactLead : List Char :=
  "__tmpl:".toList

/-- A spec without aliases; its source must not be empty. -/
def make (target source : String) (default : Option Scalar) : Except SpecFault Spec :=
  if source = "" then .error .emptySource
  else .ok ⟨source, target, default, []⟩

/-- Text read as a default of a named type. -/
def readTyped (raw kind : String) : Except SpecFault Scalar :=
  let orBad : Option Scalar → Except SpecFault Scalar
    | some value => .ok value
    | none => .error (.badDefault raw kind)
  match kind with
  | "int" => orBad ((Text.readInt64? raw.toList).map .int)
  | "uint" => orBad ((Text.readUInt64? raw.toList).map .uint)
  | "float" => orBad ((Binary64.read? raw.toList).map .float)
  | "bool" => orBad ((Scalar.readBool? raw.toList).map .bool)
  | "string" => .ok (.text raw)
  | other => .error (.unknownType other)

/-- The type that a full spec names, if it names one. -/
def fullType (fields : List (String × Node)) : Except SpecFault (Option String) :=
  match Keyed.get? "type" fields with
  | none => .ok none
  | some node => match node.text? with
    | some kind => .ok (some kind)
    | none => .error .typeNotText

/-- The default that a full spec states. A text is read as the type says, if there is one; any
other scalar stands for itself. -/
def fullDefault (fields : List (String × Node)) (kind : Option String) :
    Except SpecFault (Option Scalar) :=
  match Keyed.get? "default" fields, kind with
  | none, _ => .ok none
  | some (.leaf (.text raw)), some kind => (readTyped raw kind).map some
  | some (.leaf value), _ => .ok (some value)
  | some _, _ => .error .defaultNotScalar

/-- Reads the map of a full spec: source, type and default, in this order. -/
def ofFields (target : String) (fields : List (String × Node)) : Except SpecFault Spec := do
  match (Keyed.get? "src" fields).bind Node.text? with
  | none => .error .noSourceText
  | some source =>
    let kind ← fullType fields
    let default ← fullDefault fields kind
    make target source default

/-- The fields of a compact spec that have a meaning. -/
structure CompactFields where
  source : Option String
  default : Option String
  kind : Option String
  deriving DecidableEq

/-- The trimmed, non-empty pieces of a compact spec between its semicolons. -/
def compactPieces (packed : List Char) : List (List Char) :=
  ((packed.splitOn ';').map Text.trim).filter (fun piece => piece ≠ [])

/-- The key and the value of a piece, at its first equals sign. -/
def assignment? (piece : List Char) : Option (String × String) :=
  match piece.dropWhile (· != '=') with
  | [] => none
  | _ :: value => some
      (String.ofList (Text.trim (piece.takeWhile (· != '='))), String.ofList (Text.trim value))

/-- Takes up one piece of a compact spec. Of two values for one key the later counts, and keys
without a meaning are passed over. -/
def takeUp (fields : CompactFields) (piece : List Char) : Except SpecFault CompactFields :=
  match assignment? piece with
  | none => .error (.notAnAssignment (String.ofList piece))
  | some ("src", value) => .ok { fields with source := some value }
  | some ("default", value) => .ok { fields with default := some value }
  | some ("type", value) => .ok { fields with kind := some value }
  | some _ => .ok fields

/-- The default that a compact spec states: read as its type says, or inferred without one. -/
def compactDefault (fields : CompactFields) : Except SpecFault (Option Scalar) :=
  match fields.default, fields.kind with
  | none, _ => .ok none
  | some raw, some kind => (readTyped raw kind).map some
  | some raw, none => .ok (some (Scalar.infer raw))

/-- Reads the text of a compact spec after its lead. -/
def ofCompact (target : String) (packed : List Char) : Except SpecFault Spec := do
  let fields ← (compactPieces packed).foldlM takeUp ⟨none, none, none⟩
  match fields.source with
  | none => .error .noSourceField
  | some source =>
    let default ← compactDefault fields
    make target source default

/-- What follows the lead of a compact spec. -/
def packedText? (text : String) : Option (List Char) :=
  if compactLead.isPrefixOf text.toList then some (text.toList.drop compactLead.length) else none

/-- Whether a node is a full spec, valid or not. -/
def isFull : Node → Bool
  | .map fields => Keyed.contains marker fields
  | _ => false

/-- Whether a node is a spec of either form, valid or not. -/
def isSpec : Node → Bool
  | .leaf (.text text) => (packedText? text).isSome
  | node => isFull node

/-- Reads the node at a path as a spec; ordinary nodes are none. -/
def ofNode (path : String) (node : Node) : Except SpecFault (Option Spec) :=
  match node with
  | .map fields =>
    if Keyed.contains marker fields then (ofFields path fields).map some else .ok none
  | .leaf (.text text) => match packedText? text with
    | some packed => (ofCompact path packed).map some
    | none => .ok none
  | _ => .ok none

end Spec

end ContainerFeed.Template
