import ContainerFeed.Batch.Decoding
import ContainerFeed.Proofs.Outcomes

/-!
# Batches are read back

A decoder that reads some octets as a value takes exactly these octets, whatever follows them, and
as long as some of them are missing it reports nothing but that. Both are kept when decoders are
put one after another, so they carry over from single numbers to whole batches: the octets of a
batch are read as this batch, and no part of them as a shorter one.
-/

namespace ContainerFeed.Batch

variable {α β : Type} {decoder : Decoder α} {next : α → Decoder β} {xs ys octets : List UInt8}
  {a : α} {b : β}

/-- A decoder reads octets as a value: with all of them in front it takes just these and returns the
value, and with some of them missing it reports the end of the input. -/
structure Reads (decoder : Decoder α) (octets : List UInt8) (value : α) : Prop where
  whole : ∀ rest, decoder.run (octets ++ rest) = .ok (value, rest)
  cut : ∀ before after, octets = before ++ after → after ≠ [] →
    decoder.run before = .error .endOfInput

namespace Reads

/-- A value that is at hand is read from no octets. -/
theorem pure (value : α) : Reads (pure value) [] value where
  whole _ := rfl
  cut before after hsplit hafter := by
    obtain ⟨_, hnil⟩ := List.append_eq_nil_iff.mp hsplit.symm
    exact absurd hnil hafter

/-- A value that passes its check is read from no octets. -/
theorem orFault {fault : DecodeFault} {found : Option α} {value : α} (h : found = some value) :
    Reads (orFault fault found) [] value := by
  rw [h]
  exact pure value

/-- One decoder after another reads the octets of both. The second one is where the input ends when
the first one has all of its octets. -/
theorem bind (hfirst : Reads decoder xs a) (hnext : Reads (next a) ys b) :
    Reads (decoder >>= next) (xs ++ ys) b where
  whole rest := by
    rw [StateT.run_bind, List.append_assoc, hfirst.whole]
    exact hnext.whole rest
  cut before after hsplit hafter := by
    rw [StateT.run_bind]
    -- The input ends within the second part, or within the first one or right after it.
    rcases List.append_eq_append_iff.mp hsplit with ⟨middle, rfl, hys⟩ | ⟨middle, hxs, hmiddle⟩
    · rw [hfirst.whole]
      exact hnext.cut middle after hys hafter
    · by_cases hnil : middle = []
      · have hbefore : before = xs ++ [] := by simp [hxs, hnil]
        have hys : ys = [] ++ after := by simp [hmiddle, hnil]
        rw [hbefore, hfirst.whole]
        exact hnext.cut [] after hys hafter
      · rw [hfirst.cut before middle hxs hnil]
        rfl

/-- What is made of a value after it has been read takes no octets. -/
theorem map (h : Reads decoder xs a) (f : α → β) :
    Reads (decoder >>= fun value => Pure.pure (f value)) xs (f a) := by
  have hbind : Reads (decoder >>= fun value => Pure.pure (f value)) (xs ++ []) (f a) :=
    h.bind (pure (f a))
  rwa [List.append_nil] at hbind

end Reads

/-! ## Numbers -/

/-- Octets are taken when there are enough of them. -/
theorem run_takeOctets (count : Nat) (octets : List UInt8) :
    (takeOctets count).run octets =
      if octets.length < count then .error .endOfInput
      else .ok (octets.take count, octets.drop count) := by
  unfold takeOctets
  by_cases hshort : octets.length < count
  · simp [hshort, throw, throwThe, MonadExceptOf.throw]
  · simp [hshort]

/-- Octets are read as themselves. -/
theorem reads_takeOctets (octets : List UInt8) :
    Reads (takeOctets octets.length) octets octets where
  whole rest := by
    have hlong : ¬ (octets ++ rest).length < octets.length := by simp
    rw [run_takeOctets, if_neg hlong, List.take_left, List.drop_left]
  cut before after hsplit hafter := by
    have hpositive : 0 < after.length := List.length_pos_iff.mpr hafter
    have hlength : octets.length = before.length + after.length := by
      rw [hsplit, List.length_append]
    have hshort : before.length < octets.length := by omega
    rw [run_takeOctets, if_pos hshort]

/-- A number is read back when it has room in its octets. -/
theorem reads_decodeNat {width n : Nat} (h : n < twoTo (8 * width)) :
    Reads (decodeNat width) (littleEndian width n) n := by
  have htake := reads_takeOctets (littleEndian width n)
  rw [length_littleEndian] at htake
  have hread := htake.map ofLittleEndian
  rwa [ofLittleEndian_littleEndian h] at hread

/-- A signed number is the one in its range with its residue. -/
theorem toSigned_residue {width : Nat} {n : Int} (hwidth : 0 < width)
    (h : -(twoTo (8 * width - 1) : Int) ≤ n ∧ n < twoTo (8 * width - 1)) :
    toSigned width (n % (twoTo (8 * width) : Int)).toNat = n := by
  have htwice : twoTo (8 * width) = twoTo (8 * width - 1) * 2 := by
    rw [← twoTo_succ]
    congr 1
    omega
  have hpositive := twoTo_pos (8 * width - 1)
  have hresidue : 0 ≤ n % (twoTo (8 * width) : Int) := Int.emod_nonneg n (by omega)
  rw [toSigned, Int.toNat_of_nonneg hresidue, Int.emod_bmod, Int.bmod_eq_of_le] <;> omega

/-- A signed number is read back when it has room in its octets. -/
theorem reads_decodeInt {width : Nat} {n : Int} (hwidth : 0 < width)
    (h : -(twoTo (8 * width - 1) : Int) ≤ n ∧ n < twoTo (8 * width - 1)) :
    Reads (decodeInt width) (littleEndianSigned width n) n := by
  have hresidue : (n % (twoTo (8 * width) : Int)).toNat < twoTo (8 * width) := by
    have hpositive := twoTo_pos (8 * width)
    have hlt : n % (twoTo (8 * width) : Int) < twoTo (8 * width) :=
      Int.emod_lt_of_pos n (by omega)
    omega
  have hread := (reads_decodeNat hresidue).map (toSigned width)
  rwa [toSigned_residue hwidth h] at hread

/-! ## Lists, texts and values -/

/-- Values that a decoder reads one by one are read as a list. -/
theorem reads_decodeMany {item : Decoder α} {spell : α → List UInt8} {values : List α}
    (h : ∀ value ∈ values, Reads item (spell value) value) :
    Reads (decodeMany item values.length) (values.flatMap spell) values := by
  induction values with
  | nil => exact .pure []
  | cons value rest ih =>
    obtain ⟨hvalue, hrest⟩ := List.forall_mem_cons.mp h
    exact hvalue.bind ((ih hrest).map fun rest => value :: rest)

/-- A list is read back when each of its items is. -/
theorem reads_decodeList {item : Decoder α} {spell : α → List UInt8} {values : List α}
    (hlength : values.length < twoTo 64) (h : ∀ value ∈ values, Reads item (spell value) value) :
    Reads (decodeList item) (littleEndian 8 values.length ++ values.flatMap spell) values :=
  (reads_decodeNat hlength).bind (reads_decodeMany h)

/-- A text is read back. -/
theorem reads_decodeText {text : String} (h : (Text.toOctets text).length < twoTo 64) :
    Reads decodeText (encodeText text) text := by
  have hread : Reads decodeText
      (littleEndian 8 (Text.toOctets text).length ++ (Text.toOctets text ++ [])) text :=
    (reads_decodeNat h).bind ((reads_takeOctets _).bind (.orFault (Text.ofOctets?_toOctets text)))
  rwa [List.append_nil] at hread

/-- A truth value is read back. -/
theorem reads_decodeBool (value : Bool) :
    Reads decodeBool (littleEndian 1 value.toNat) value := by
  have hsmall : value.toNat < twoTo (8 * 1) := by cases value <;> decide
  have hread : Reads decodeBool (littleEndian 1 value.toNat ++ []) value := by
    refine (reads_decodeNat hsmall).bind ?_
    cases value <;> exact .pure _
  rwa [List.append_nil] at hread

/-- The texts of a measurement: the segments of its namespace, and its value if it is a text. -/
def textsOf (m : Measurement) : List String :=
  m.ns.segments ++ match m.value with
    | .text value => [value]
    | _ => []

/-- A value is read back, whatever its kind. -/
theorem reads_decodeValue {value : MetricValue}
    (h : ∀ text, value = .text text → (Text.toOctets text).length < twoTo 64) :
    Reads decodeValue (encodeValue value) value := by
  have hkind {kind : Nat} (hsmall : kind < 5) : kind < twoTo (8 * 4) := by
    have hfive : 5 < twoTo (8 * 4) := by decide
    omega
  cases value with
  | int value =>
    have hnumber : Reads (decodeNat 8) (littleEndian 8 value.toUInt64.toNat) _ :=
      reads_decodeNat value.toUInt64.toNat_lt
    have hread := hnumber.map fun n => MetricValue.int (UInt64.ofNat n).toInt64
    rw [UInt64.ofNat_toNat, Int64.toInt64_toUInt64] at hread
    exact (reads_decodeNat (hkind (by decide))).bind hread
  | uint value =>
    have hnumber : Reads (decodeNat 8) (littleEndian 8 value.toNat) _ :=
      reads_decodeNat value.toNat_lt
    have hread := hnumber.map fun n => MetricValue.uint (UInt64.ofNat n)
    rw [UInt64.ofNat_toNat] at hread
    exact (reads_decodeNat (hkind (by decide))).bind hread
  | float value =>
    have hnumber : Reads (decodeNat 8) (littleEndian 8 value.bits.toNat) _ :=
      reads_decodeNat value.bits.toNat_lt
    have hread := hnumber.map fun n => MetricValue.float ⟨UInt64.ofNat n⟩
    rw [UInt64.ofNat_toNat] at hread
    exact (reads_decodeNat (hkind (by decide))).bind hread
  | bool value =>
    exact (reads_decodeNat (hkind (by decide))).bind
      ((reads_decodeBool value).map MetricValue.bool)
  | text value =>
    exact (reads_decodeNat (hkind (by decide))).bind
      ((reads_decodeText (h value rfl)).map MetricValue.text)

/-! ## Timestamps -/

/-- A date is made of its own parts. -/
theorem make?_date (date : Date) : Date.make? date.year date.ordinal = some date := by
  rw [Date.make?, dif_pos ⟨date.year_range, date.ordinal_range⟩]

/-- A time of day is made of its own parts. -/
theorem make?_time (time : TimeOfDay) :
    TimeOfDay.make? time.hour time.minute time.second time.nanosecond = some time := by
  rw [TimeOfDay.make?, dif_pos ⟨time.hour_lt, time.minute_lt, time.second_lt, time.nanosecond_lt⟩]

/-- The parts of an offset do not differ in sign, so none of them is changed. -/
theorem make?_offset (offset : UtcOffset) :
    UtcOffset.make? offset.hours offset.minutes offset.seconds = some offset := by
  obtain ⟨hours, minutes, seconds, hhours, hminutes, hseconds, hsign⟩ := offset
  have hm : UtcOffset.follow hours minutes = minutes := by
    unfold UtcOffset.follow
    split <;> omega
  have hs : UtcOffset.follow (if hours = 0 then minutes else hours) seconds = seconds := by
    unfold UtcOffset.follow
    split <;> split at * <;> omega
  simp only [UtcOffset.make?, hm, hs]
  rw [dif_pos ⟨hhours, hminutes, hseconds⟩]

/-- A timestamp is made of its own parts. -/
theorem timestamp?_parts (t : Timestamp) :
    timestamp? t.date.year t.date.ordinal t.time.hour t.time.minute t.time.second
      t.time.nanosecond t.offset.hours t.offset.minutes t.offset.seconds = some t := by
  simp only [timestamp?, make?_date, make?_time, make?_offset]

/-- A timestamp is read back. -/
theorem reads_decodeTimestamp (t : Timestamp) :
    Reads decodeTimestamp (encodeTimestamp t) t := by
  obtain ⟨hlow, hhigh⟩ := t.date.year_range
  have hordinal : t.date.ordinal < twoTo (8 * 2) := by
    have hdays := t.date.ordinal_range.2
    have hyear : daysInYear t.date.year < twoTo (8 * 2) := by
      unfold daysInYear
      split <;> decide
    omega
  have hyear : -(twoTo (8 * 4 - 1) : Int) ≤ t.date.year ∧ t.date.year < twoTo (8 * 4 - 1) := by
    have hrange : twoTo (8 * 4 - 1) = 2147483648 := rfl
    omega
  have hoctet {n : Nat} (hn : n < 60) : n < twoTo (8 * 1) := by
    have hrange : twoTo (8 * 1) = 256 := rfl
    omega
  have hsigned {n : Int} (hn : -59 ≤ n ∧ n ≤ 59) :
      -(twoTo (8 * 1 - 1) : Int) ≤ n ∧ n < twoTo (8 * 1 - 1) := by
    have hrange : twoTo (8 * 1 - 1) = 128 := rfl
    omega
  have hnanosecond : t.time.nanosecond < twoTo (8 * 4) := by
    have hlt := t.time.nanosecond_lt
    have hrange : twoTo (8 * 4) = 4294967296 := rfl
    omega
  have hhour := t.time.hour_lt
  have hhours := t.offset.hours_range
  have hread : Reads decodeTimestamp _ t :=
    (reads_decodeInt (by decide) hyear).bind <|
    (reads_decodeNat hordinal).bind <|
    (reads_decodeNat (hoctet (by omega))).bind <|
    (reads_decodeNat (hoctet t.time.minute_lt)).bind <|
    (reads_decodeNat (hoctet t.time.second_lt)).bind <|
    (reads_decodeNat hnanosecond).bind <|
    (reads_decodeInt (by decide) (hsigned (by omega))).bind <|
    (reads_decodeInt (by decide) (hsigned t.offset.minutes_range)).bind <|
    (reads_decodeInt (by decide) (hsigned t.offset.seconds_range)).bind <|
    .orFault (timestamp?_parts t)
  simpa only [encodeTimestamp, List.append_assoc, List.append_nil] using hread

/-! ## Batches -/

/-- Every length in a batch can be written in eight octets, as can those of any batch in memory. -/
structure Fits (batch : List Measurement) : Prop where
  count : batch.length < twoTo 64
  segments : ∀ m ∈ batch, m.ns.segments.length < twoTo 64
  texts : ∀ m ∈ batch, ∀ text ∈ textsOf m, (Text.toOctets text).length < twoTo 64

/-- A measurement is read back. -/
theorem reads_decodeMeasurement {m : Measurement} (hsegments : m.ns.segments.length < twoTo 64)
    (htexts : ∀ text ∈ textsOf m, (Text.toOctets text).length < twoTo 64) :
    Reads decodeMeasurement (encodeMeasurement m) m := by
  have hnamespace : Reads (decodeList decodeText) (encodeNamespace m.ns) m.ns.segments :=
    reads_decodeList hsegments fun segment hsegment =>
      reads_decodeText (htexts segment (by simp [textsOf, hsegment]))
  have hvalue : Reads decodeValue (encodeValue m.value) m.value :=
    reads_decodeValue fun text htext => htexts text (by simp [textsOf, htext])
  have hrest := (reads_decodeTimestamp m.timestamp).map (Measurement.mk ⟨m.ns.segments⟩ m.value)
  have hread : Reads decodeMeasurement _ m := hnamespace.bind (hvalue.bind hrest)
  simpa only [encodeMeasurement, List.append_assoc] using hread

/-- A batch is read from its octets. -/
theorem reads_decodeBatch {batch : List Measurement} (h : Fits batch) :
    Reads (decodeList decodeMeasurement) (encode batch) batch :=
  reads_decodeList h.count fun m hm => reads_decodeMeasurement (h.segments m hm) (h.texts m hm)

/-- A batch is decoded from its octets whatever follows them, and with any of them missing decoding
reports the end of the input and nothing else. -/
theorem decode_encode {batch : List Measurement} (h : Fits batch) :
    (∀ rest, decode contentType (encode batch ++ rest) = .ok batch) ∧
    ∀ before after, encode batch = before ++ after → after ≠ [] →
      decode contentType before = .error (.decode .endOfInput) := by
  have hread := reads_decodeBatch h
  refine ⟨?_, ?_⟩
  · intro rest
    simp only [decode, decodeFront, hread.whole rest, if_true]
  · intro before after hsplit hafter
    simp only [decode, decodeFront, hread.cut before after hsplit hafter, if_true]

/-- A measurement of each kind of value, among them a float that is not a number, on the last day of
a leap year and with an offset of negative parts. -/
def everyKind : List Measurement :=
  let timestamp : Timestamp :=
    ⟨⟨2028, 366, by decide, by decide⟩, ⟨23, 59, 59, 999999999, by decide, by decide, by decide,
      by decide⟩, ⟨-2, -30, -1, by decide, by decide, by decide, by decide⟩⟩
  [.int (-1), .uint 18446744073709551615, .float .nan, .bool true, .text "é/"].map fun value =>
    ⟨⟨["docker", "", "web"]⟩, value, timestamp⟩

/-- A batch with a value of every kind is read back, and no part of it in front is. -/
theorem decode_encode_everyKind :
    Fits everyKind ∧ (∀ rest, decode contentType (encode everyKind ++ rest) = .ok everyKind) ∧
    ∀ before after, encode everyKind = before ++ after → after ≠ [] →
      decode contentType before = .error (.decode .endOfInput) := by
  have hfits : Fits everyKind := ⟨by decide, by decide, by decide +kernel⟩
  exact ⟨hfits, decode_encode hfits⟩

end ContainerFeed.Batch
