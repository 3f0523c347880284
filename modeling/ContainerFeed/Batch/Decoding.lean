import ContainerFeed.Batch.Encoding

/-!
# Batches from octets

A decoder takes what it needs from the front of the octets and leaves the rest. Octets after the
last measurement are not looked at. The nine numbers of a timestamp are all taken before any of
them is checked.
-/

namespace ContainerFeed.Batch

/-- Why octets are not a batch. -/
inductive DecodeFault where
  | endOfInput
  /-- The octets of a text are not UTF-8. -/
  | badText
  /-- The octet of a truth value is neither 0 nor 1. -/
  | badBool
  /-- An unknown kind of value, or a date, time or offset out of range. -/
  | badValue
  deriving DecidableEq

/-- Takes a value from the front of some octets. -/
abbrev Decoder (α : Type) := StateT (List UInt8) (Except DecodeFault) α

/-- Fails unless there is a value. -/
def orFault {α : Type} (fault : DecodeFault) : Option α → Decoder α
  | some value => pure value
  | none => throw fault

/-- Takes some octets. -/
def takeOctets (count : Nat) : Decoder (List UInt8) := do
  let octets ← get
  if octets.length < count then throw .endOfInput
  set (octets.drop count)
  return octets.take count

/-- Takes an unsigned number of some octets. -/
def decodeNat (width : Nat) : Decoder Nat := do
  return ofLittleEndian (← takeOctets width)

/-- Takes a signed number of some octets. -/
def decodeInt (width : Nat) : Decoder Int := do
  return toSigned width (← decodeNat width)

/-- Takes a number of values, one after another. -/
def decodeMany {α : Type} (item : Decoder α) : Nat → Decoder (List α)
  | 0 => pure []
  | count + 1 => do
    let value ← item
    let rest ← decodeMany item count
    return value :: rest

/-- Takes a list behind its length. -/
def decodeList {α : Type} (item : Decoder α) : Decoder (List α) := do
  decodeMany item (← decodeNat 8)

/-- A text, after the number of its octets. -/
def decodeText : Decoder String := do
  let octets ← takeOctets (← decodeNat 8)
  orFault .badText (Text.ofOctets? octets)

/-- A truth value, in one octet. -/
def decodeBool : Decoder Bool := do
  match ← decodeNat 1 with
  | 0 => return false
  | 1 => return true
  | _ => throw .badBool

/-- A value, after the number of its kind. -/
def decodeValue : Decoder MetricValue := do
  match ← decodeNat 4 with
  | 0 => return .int (UInt64.ofNat (← decodeNat 8)).toInt64
  | 1 => return .uint (UInt64.ofNat (← decodeNat 8))
  | 2 => return .float ⟨UInt64.ofNat (← decodeNat 8)⟩
  | 3 => return .bool (← decodeBool)
  | 4 => return .text (← decodeText)
  | _ => throw .badValue

/-- The timestamp with the nine given numbers, if they are in range. -/
def timestamp? (year : Int) (ordinal hour minute second nanosecond : Nat)
    (hours minutes seconds : Int) : Option Timestamp :=
  match Date.make? year ordinal, TimeOfDay.make? hour minute second nanosecond,
    UtcOffset.make? hours minutes seconds with
  | some date, some time, some offset => some ⟨date, time, offset⟩
  | _, _, _ => none

/-- A timestamp, part by part. -/
def decodeTimestamp : Decoder Timestamp := do
  let year ← decodeInt 4
  let ordinal ← decodeNat 2
  let hour ← decodeNat 1
  let minute ← decodeNat 1
  let second ← decodeNat 1
  let nanosecond ← decodeNat 4
  let hours ← decodeInt 1
  let minutes ← decodeInt 1
  let seconds ← decodeInt 1
  orFault .badValue (timestamp? year ordinal hour minute second nanosecond hours minutes seconds)

/-- A measurement: its namespace, its value and its time. -/
def decodeMeasurement : Decoder Measurement := do
  let segments ← decodeList decodeText
  let value ← decodeValue
  let timestamp ← decodeTimestamp
  return ⟨⟨segments⟩, value, timestamp⟩

/-- Why the content of a batch is refused. -/
inductive Fault where
  | unsupportedContentType (tag : String)
  | decode (fault : DecodeFault)
  deriving DecidableEq

/-- What is reported of a fault. -/
def Fault.message : Fault → String
  | .unsupportedContentType tag => s!"unknown content type '{tag}'"
  | .decode _ => "error decoding batch"

/-- The batch at the front of some octets, and the octets after it. -/
def decodeFront (octets : List UInt8) : Except DecodeFault (List Measurement × List UInt8) :=
  (decodeList decodeMeasurement).run octets

/-- The batch that some octets of a content type begin with. -/
def decode (tag : String) (octets : List UInt8) : Except Fault (List Measurement) :=
  if tag = contentType then
    match decodeFront octets with
    | .ok (batch, _) => .ok batch
    | .error fault => .error (.decode fault)
  else .error (.unsupportedContentType tag)

end ContainerFeed.Batch
