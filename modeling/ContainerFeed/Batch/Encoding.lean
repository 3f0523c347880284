import ContainerFeed.Batch.Octets
import ContainerFeed.Measurement
import ContainerFeed.Text.Octets

/-!
# Batches as octets

A batch is the number of its measurements followed by the measurements. Lists and texts carry
their length in front, in eight octets; the kind of a value is a number of four octets, and a
timestamp is nine numbers of fixed widths.
-/

namespace ContainerFeed.Batch

/-- The tag of the batches that can be decoded. -/
def contentType : String :=
  "snap.bincode"

/-- A text behind the number of its octets. -/
def encodeText (text : String) : List UInt8 :=
  littleEndian 8 (Text.toOctets text).length ++ Text.toOctets text

/-- A namespace behind the number of its segments. -/
def encodeNamespace (ns : Namespace) : List UInt8 :=
  littleEndian 8 ns.segments.length ++ ns.segments.flatMap encodeText

/-- A value behind the number of its kind. -/
def encodeValue : MetricValue → List UInt8
  | .int value => littleEndian 4 0 ++ littleEndian 8 value.toUInt64.toNat
  | .uint value => littleEndian 4 1 ++ littleEndian 8 value.toNat
  | .float value => littleEndian 4 2 ++ littleEndian 8 value.bits.toNat
  | .bool value => littleEndian 4 3 ++ littleEndian 1 value.toNat
  | .text value => littleEndian 4 4 ++ encodeText value

/-- A timestamp as nine numbers: local date and time, then the offset. -/
def encodeTimestamp (t : Timestamp) : List UInt8 :=
  littleEndianSigned 4 t.date.year ++ littleEndian 2 t.date.ordinal ++
  littleEndian 1 t.time.hour ++ littleEndian 1 t.time.minute ++ littleEndian 1 t.time.second ++
  littleEndian 4 t.time.nanosecond ++
  littleEndianSigned 1 t.offset.hours ++ littleEndianSigned 1 t.offset.minutes ++
  littleEndianSigned 1 t.offset.seconds

/-- The octets of a measurement. -/
def encodeMeasurement (m : Measurement) : List UInt8 :=
  encodeNamespace m.ns ++ encodeValue m.value ++ encodeTimestamp m.timestamp

/-- The octets of a batch. -/
def encode (batch : List Measurement) : List UInt8 :=
  littleEndian 8 batch.length ++ batch.flatMap encodeMeasurement

end ContainerFeed.Batch
