import ContainerFeed.Proofs.Batch.RoundTrip
import ContainerFeed.Proofs.Time.Calendar
import Mathlib.Data.List.Forall2

/-!
# Only the octets of a batch are decoded

What a decoder accepts begins with the octets that its value is encoded as. The only exceptions are
the minutes and seconds of an offset: where they differ in sign from a larger part of the offset,
the sign is changed when they are read. So what a batch is decoded from are its own octets, up to
signs at these places, and whatever follows them.
-/

namespace ContainerFeed.Batch

variable {α β : Type} {decoder : Decoder α} {next : α → Decoder β} {octets rest : List UInt8}

/-- A chain of decoders succeeds when the first one does, and the next one on what it leaves. -/
theorem run_bind_eq_ok_iff {b : β} :
    (decoder >>= next).run octets = .ok (b, rest) ↔
      ∃ a middle, decoder.run octets = .ok (a, middle) ∧ (next a).run middle = .ok (b, rest) := by
  rw [StateT.run_bind, Outcome.bind_eq_ok_iff, Prod.exists]

/-- A decoder that takes nothing leaves all octets. -/
theorem run_pure_eq_ok_iff {a b : α} :
    (pure a : Decoder α).run octets = .ok (b, rest) ↔ a = b ∧ octets = rest := by
  rw [StateT.run_pure, Outcome.pure_eq_ok_iff, Prod.mk.injEq]

/-- A decoder that only checks takes no octets, and finds what has been there. -/
theorem orFault_eq_ok {fault : DecodeFault} {found : Option α} {a : α}
    (h : (orFault fault found).run octets = .ok (a, rest)) : found = some a ∧ octets = rest := by
  cases found with
  | none => cases h
  | some value =>
    obtain ⟨rfl, hrest⟩ := run_pure_eq_ok_iff.mp h
    exact ⟨rfl, hrest⟩

/-! ## Numbers -/

/-- A number is bounded by the octets that it is read from. -/
theorem ofLittleEndian_lt (octets : List UInt8) :
    ofLittleEndian octets < twoTo (8 * octets.length) := by
  induction octets with
  | nil => decide
  | cons octet rest ih =>
    have hoctet := octet.toNat_lt
    have hsize : twoTo (8 * (rest.length + 1)) = twoTo (8 * rest.length) * 256 := by
      rw [Nat.mul_succ, twoTo_add]
      rfl
    rw [ofLittleEndian, List.length_cons, hsize]
    omega

/-- Octets are determined by their number and what they spell. -/
theorem littleEndian_ofLittleEndian (octets : List UInt8) :
    littleEndian octets.length (ofLittleEndian octets) = octets := by
  induction octets with
  | nil => rfl
  | cons octet rest ih =>
    have hoctet := octet.toNat_lt
    have hmod : (octet.toNat + 256 * ofLittleEndian rest) % 256 = octet.toNat := by omega
    have hdiv : (octet.toNat + 256 * ofLittleEndian rest) / 256 = ofLittleEndian rest := by omega
    rw [List.length_cons, ofLittleEndian, littleEndian, hmod, hdiv, ih, UInt8.ofNat_toNat]

/-- The octets that are taken stand in front, as many as were asked for. -/
theorem takeOctets_eq_ok {count : Nat} {taken : List UInt8}
    (h : (takeOctets count).run octets = .ok (taken, rest)) :
    octets = taken ++ rest ∧ taken.length = count := by
  rw [run_takeOctets] at h
  split at h
  · cases h
  · rename_i hlong
    obtain ⟨rfl, rfl⟩ := Prod.mk.inj (Except.ok.inj h)
    refine ⟨(List.take_append_drop count octets).symm, ?_⟩
    rw [List.length_take]
    omega

/-- A number is read from the octets that it is written in. -/
theorem decodeNat_eq_ok {width n : Nat} (h : (decodeNat width).run octets = .ok (n, rest)) :
    octets = littleEndian width n ++ rest ∧ n < twoTo (8 * width) := by
  obtain ⟨taken, middle, htaken, hn⟩ := run_bind_eq_ok_iff.mp h
  obtain ⟨rfl, rfl⟩ := run_pure_eq_ok_iff.mp hn
  obtain ⟨rfl, rfl⟩ := takeOctets_eq_ok htaken
  rw [littleEndian_ofLittleEndian]
  exact ⟨rfl, ofLittleEndian_lt taken⟩

/-- A signed number has the residue it is read from. -/
theorem littleEndianSigned_toSigned {width n : Nat} (h : n < twoTo (8 * width)) :
    littleEndianSigned width (toSigned width n) = littleEndian width n := by
  have hresidue : (n : Int) % twoTo (8 * width) = n := Int.emod_eq_of_lt (by omega) (by omega)
  rw [littleEndianSigned, toSigned, Int.bmod_emod, hresidue, Int.toNat_natCast]

/-- A signed number is read from the octets that it is written in. -/
theorem decodeInt_eq_ok {width : Nat} {n : Int}
    (h : (decodeInt width).run octets = .ok (n, rest)) :
    octets = littleEndianSigned width n ++ rest := by
  obtain ⟨residue, middle, hresidue, hn⟩ := run_bind_eq_ok_iff.mp h
  obtain ⟨rfl, rfl⟩ := run_pure_eq_ok_iff.mp hn
  obtain ⟨rfl, hlt⟩ := decodeNat_eq_ok hresidue
  rw [littleEndianSigned_toSigned hlt]

/-! ## Lists, texts and values -/

section

variable {item : Decoder α} {relates : List UInt8 → α → Prop} {fits : α → Prop}
  (hitem : ∀ {octets value rest}, item.run octets = .ok (value, rest) →
    ∃ front, octets = front ++ rest ∧ relates front value ∧ fits value)

include hitem

/-- When a decoder accepts only octets in a relation to its value, the octets of several values are
made up of such ones. -/
theorem decodeMany_eq_ok {count : Nat} {values : List α}
    (h : (decodeMany item count).run octets = .ok (values, rest)) :
    values.length = count ∧ (∀ value ∈ values, fits value) ∧
      ∃ fronts, octets = fronts.flatten ++ rest ∧ List.Forall₂ relates fronts values := by
  induction count generalizing octets values with
  | zero =>
    obtain ⟨rfl, rfl⟩ := run_pure_eq_ok_iff.mp h
    exact ⟨rfl, by simp, [], rfl, .nil⟩
  | succ count ih =>
    obtain ⟨value, middle, hvalue, h⟩ := run_bind_eq_ok_iff.mp h
    obtain ⟨later, middle', hlater, h⟩ := run_bind_eq_ok_iff.mp h
    obtain ⟨rfl, rfl⟩ := run_pure_eq_ok_iff.mp h
    obtain ⟨front, rfl, hfront, hfits⟩ := hitem hvalue
    obtain ⟨hcount, hfitslater, fronts, rfl, hfronts⟩ := ih hlater
    refine ⟨by rw [List.length_cons, hcount], List.forall_mem_cons.mpr ⟨hfits, hfitslater⟩,
      front :: fronts, ?_, .cons hfront hfronts⟩
    rw [List.flatten_cons, List.append_assoc]

/-- The octets of a list are its length, and then those of its values. -/
theorem decodeList_eq_ok {values : List α}
    (h : (decodeList item).run octets = .ok (values, rest)) :
    values.length < twoTo 64 ∧ (∀ value ∈ values, fits value) ∧
      ∃ fronts, octets = littleEndian 8 values.length ++ fronts.flatten ++ rest ∧
        List.Forall₂ relates fronts values := by
  obtain ⟨count, middle, hcount, hmany⟩ := run_bind_eq_ok_iff.mp h
  obtain ⟨hoctets, hlt⟩ := decodeNat_eq_ok hcount
  obtain ⟨hlength, hfits, fronts, hmiddle, hfronts⟩ := decodeMany_eq_ok hitem hmany
  rw [hlength]
  exact ⟨hlt, hfits, fronts, by rw [hoctets, hmiddle, List.append_assoc], hfronts⟩

end

/-- A text is read from the octets that it is written in. -/
theorem decodeText_eq_ok {text : String} (h : decodeText.run octets = .ok (text, rest)) :
    octets = encodeText text ++ rest ∧ (Text.toOctets text).length < twoTo 64 := by
  obtain ⟨count, middle, hcount, h⟩ := run_bind_eq_ok_iff.mp h
  obtain ⟨taken, middle', htaken, h⟩ := run_bind_eq_ok_iff.mp h
  obtain ⟨htext, rfl⟩ := orFault_eq_ok h
  obtain ⟨rfl, hlt⟩ := decodeNat_eq_ok hcount
  obtain ⟨rfl, rfl⟩ := takeOctets_eq_ok htaken
  rw [encodeText, Text.toOctets_of_ofOctets? htext, List.append_assoc]
  exact ⟨rfl, hlt⟩

/-- The segments of a namespace are read from the octets that they are written in. -/
theorem decodeNamespace_eq_ok {segments : List String}
    (h : (decodeList decodeText).run octets = .ok (segments, rest)) :
    octets = encodeNamespace ⟨segments⟩ ++ rest ∧ segments.length < twoTo 64 ∧
      ∀ segment ∈ segments, (Text.toOctets segment).length < twoTo 64 := by
  have hitem {octets : List UInt8} {text : String} {rest : List UInt8}
      (htext : decodeText.run octets = .ok (text, rest)) :
      ∃ front, octets = front ++ rest ∧ front = encodeText text ∧
        (Text.toOctets text).length < twoTo 64 :=
    ⟨_, (decodeText_eq_ok htext).1, rfl, (decodeText_eq_ok htext).2⟩
  obtain ⟨hcount, hfits, fronts, hoctets, hfronts⟩ := decodeList_eq_ok hitem h
  have hspelt : fronts = segments.map encodeText := by
    rw [← List.forall₂_map_right_iff, List.forall₂_eq_eq_eq] at hfronts
    exact hfronts
  exact ⟨by rw [hoctets, hspelt, encodeNamespace, List.flatMap_def], hcount, hfits⟩

/-- A truth value is read from the octet that it is written in. -/
theorem decodeBool_eq_ok {value : Bool} (h : decodeBool.run octets = .ok (value, rest)) :
    octets = littleEndian 1 value.toNat ++ rest := by
  obtain ⟨n, middle, hn, hvalue⟩ := run_bind_eq_ok_iff.mp h
  rw [(decodeNat_eq_ok hn).1]
  split at hvalue
  · obtain ⟨rfl, rfl⟩ := run_pure_eq_ok_iff.mp hvalue
    rfl
  · obtain ⟨rfl, rfl⟩ := run_pure_eq_ok_iff.mp hvalue
    rfl
  · cases hvalue

/-- The octets of a number of eight octets behind those of a kind. -/
private theorem decodeWord_eq_ok {kind n : Nat} {middle : List UInt8}
    (hoctets : octets = littleEndian 4 kind ++ middle)
    (h : (decodeNat 8).run middle = .ok (n, rest)) :
    octets = littleEndian 4 kind ++ littleEndian 8 (UInt64.ofNat n).toNat ++ rest := by
  obtain ⟨hmiddle, hlt⟩ := decodeNat_eq_ok h
  have hn : (UInt64.ofNat n).toNat = n := by
    rw [UInt64.toNat_ofNat']
    exact Nat.mod_eq_of_lt hlt
  rw [hoctets, hmiddle, hn, List.append_assoc]

/-- A value is read from the octets that it is written in. -/
theorem decodeValue_eq_ok {value : MetricValue}
    (h : decodeValue.run octets = .ok (value, rest)) :
    octets = encodeValue value ++ rest ∧
      ∀ text, value = .text text → (Text.toOctets text).length < twoTo 64 := by
  obtain ⟨kind, middle, hkind, hvalue⟩ := run_bind_eq_ok_iff.mp h
  have hoctets := (decodeNat_eq_ok hkind).1
  split at hvalue
  · obtain ⟨n, middle', hn, hint⟩ := run_bind_eq_ok_iff.mp hvalue
    obtain ⟨rfl, rfl⟩ := run_pure_eq_ok_iff.mp hint
    refine ⟨?_, by simp⟩
    rw [encodeValue, UInt64.toUInt64_toInt64]
    exact decodeWord_eq_ok hoctets hn
  · obtain ⟨n, middle', hn, huint⟩ := run_bind_eq_ok_iff.mp hvalue
    obtain ⟨rfl, rfl⟩ := run_pure_eq_ok_iff.mp huint
    exact ⟨decodeWord_eq_ok hoctets hn, by simp⟩
  · obtain ⟨n, middle', hn, hfloat⟩ := run_bind_eq_ok_iff.mp hvalue
    obtain ⟨rfl, rfl⟩ := run_pure_eq_ok_iff.mp hfloat
    exact ⟨decodeWord_eq_ok hoctets hn, by simp⟩
  · obtain ⟨flag, middle', hflag, hbool⟩ := run_bind_eq_ok_iff.mp hvalue
    obtain ⟨rfl, rfl⟩ := run_pure_eq_ok_iff.mp hbool
    refine ⟨?_, by simp⟩
    rw [hoctets, decodeBool_eq_ok hflag, encodeValue, List.append_assoc]
  · obtain ⟨text, middle', htext, hread⟩ := run_bind_eq_ok_iff.mp hvalue
    obtain ⟨rfl, rfl⟩ := run_pure_eq_ok_iff.mp hread
    obtain ⟨hmiddle, hlt⟩ := decodeText_eq_ok htext
    refine ⟨by rw [hoctets, hmiddle, encodeValue, List.append_assoc], ?_⟩
    rintro _ ⟨⟩
    exact hlt
  · cases hvalue

/-! ## Timestamps -/

/-- The octets of a timestamp up to the hours of its offset. -/
def timestampHead (t : Timestamp) : List UInt8 :=
  littleEndianSigned 4 t.date.year ++ littleEndian 2 t.date.ordinal ++
  littleEndian 1 t.time.hour ++ littleEndian 1 t.time.minute ++ littleEndian 1 t.time.second ++
  littleEndian 4 t.time.nanosecond ++ littleEndianSigned 1 t.offset.hours

/-- Two numbers differ in sign. -/
def Opposite (a b : Int) : Prop :=
  (0 < a ∧ b < 0) ∨ (a < 0 ∧ 0 < b)

/-- An offset is read from these minutes and seconds. They are its own, but that each of them can
have the other sign where it differs in sign from a larger part. -/
structure ReadFrom (offset : UtcOffset) (minutes seconds : Int) : Prop where
  minuteSign : minutes = offset.minutes ∨
    minutes = -offset.minutes ∧ Opposite offset.hours minutes
  secondSign : seconds = offset.seconds ∨ seconds = -offset.seconds ∧
    Opposite (if offset.hours = 0 then minutes else offset.hours) seconds

/-- A smaller part takes the sign of a larger one, so it stays or had the opposite sign. -/
theorem follow_cases (larger smaller : Int) :
    smaller = UtcOffset.follow larger smaller ∨
      smaller = -UtcOffset.follow larger smaller ∧ Opposite larger smaller := by
  unfold UtcOffset.follow
  split
  · rename_i hopposite
    exact .inr ⟨(Int.neg_neg smaller).symm, hopposite⟩
  · exact .inl rfl

/-- An offset has the hours that it is made of, and is read from its minutes and seconds. -/
theorem offset_eq_some {hours minutes seconds : Int} {offset : UtcOffset}
    (h : UtcOffset.make? hours minutes seconds = some offset) :
    offset.hours = hours ∧ ReadFrom offset minutes seconds := by
  simp only [UtcOffset.make?, Option.dite_none_right_eq_some] at h
  obtain ⟨_, h⟩ := h
  obtain rfl := Option.some.inj h
  exact ⟨rfl, follow_cases _ _, follow_cases _ _⟩

/-- A timestamp has the parts that it is made of, up to the signs in its offset. -/
theorem timestamp?_eq_some {year : Int} {ordinal hour minute second nanosecond : Nat}
    {hours minutes seconds : Int} {t : Timestamp}
    (h : timestamp? year ordinal hour minute second nanosecond hours minutes seconds = some t) :
    t.date.year = year ∧ t.date.ordinal = ordinal ∧ t.time.hour = hour ∧ t.time.minute = minute ∧
      t.time.second = second ∧ t.time.nanosecond = nanosecond ∧ t.offset.hours = hours ∧
      ReadFrom t.offset minutes seconds := by
  unfold timestamp? at h
  split at h
  · rename_i date time offset hdate htime hoffset
    obtain rfl := Option.some.inj h
    obtain ⟨hhours, hread⟩ := offset_eq_some hoffset
    simp only [Date.make?, Option.dite_none_right_eq_some] at hdate
    simp only [TimeOfDay.make?, Option.dite_none_right_eq_some] at htime
    obtain ⟨_, hdate⟩ := hdate
    obtain ⟨_, htime⟩ := htime
    obtain rfl := Option.some.inj hdate
    obtain rfl := Option.some.inj htime
    exact ⟨rfl, rfl, rfl, rfl, rfl, rfl, hhours, hread⟩
  · cases h

/-- A timestamp is read from its own octets, up to the signs in its offset. -/
theorem decodeTimestamp_eq_ok {t : Timestamp}
    (h : decodeTimestamp.run octets = .ok (t, rest)) :
    ∃ minutes seconds, ReadFrom t.offset minutes seconds ∧
      octets = timestampHead t ++
        (littleEndianSigned 1 minutes ++ littleEndianSigned 1 seconds) ++ rest := by
  obtain ⟨year, _, hyear, h⟩ := run_bind_eq_ok_iff.mp h
  obtain ⟨ordinal, _, hordinal, h⟩ := run_bind_eq_ok_iff.mp h
  obtain ⟨hour, _, hhour, h⟩ := run_bind_eq_ok_iff.mp h
  obtain ⟨minute, _, hminute, h⟩ := run_bind_eq_ok_iff.mp h
  obtain ⟨second, _, hsecond, h⟩ := run_bind_eq_ok_iff.mp h
  obtain ⟨nanosecond, _, hnanosecond, h⟩ := run_bind_eq_ok_iff.mp h
  obtain ⟨hours, _, hhours, h⟩ := run_bind_eq_ok_iff.mp h
  obtain ⟨minutes, _, hminutes, h⟩ := run_bind_eq_ok_iff.mp h
  obtain ⟨seconds, _, hseconds, h⟩ := run_bind_eq_ok_iff.mp h
  obtain ⟨hmade, hrest⟩ := orFault_eq_ok h
  obtain ⟨rfl, rfl, rfl, rfl, rfl, rfl, rfl, hread⟩ := timestamp?_eq_some hmade
  refine ⟨minutes, seconds, hread, ?_⟩
  rw [decodeInt_eq_ok hyear, (decodeNat_eq_ok hordinal).1, (decodeNat_eq_ok hhour).1,
    (decodeNat_eq_ok hminute).1, (decodeNat_eq_ok hsecond).1, (decodeNat_eq_ok hnanosecond).1,
    decodeInt_eq_ok hhours, decodeInt_eq_ok hminutes, decodeInt_eq_ok hseconds, hrest]
  simp only [timestampHead, List.append_assoc]

/-! ## Measurements -/

/-- The octets of a measurement up to the hours of its offset. -/
def measurementHead (m : Measurement) : List UInt8 :=
  encodeNamespace m.ns ++ encodeValue m.value ++ timestampHead m.timestamp

/-- Octets spell a measurement: they are its own, up to the signs of the minutes and seconds of its
offset. -/
def Spells (octets : List UInt8) (m : Measurement) : Prop :=
  ∃ minutes seconds, ReadFrom m.timestamp.offset minutes seconds ∧
    octets = measurementHead m ++ (littleEndianSigned 1 minutes ++ littleEndianSigned 1 seconds)

/-- The minutes and seconds of the offset come last in a measurement. -/
theorem encodeMeasurement_eq (m : Measurement) :
    encodeMeasurement m = measurementHead m ++ (littleEndianSigned 1 m.timestamp.offset.minutes ++
      littleEndianSigned 1 m.timestamp.offset.seconds) := by
  simp only [encodeMeasurement, measurementHead, encodeTimestamp, timestampHead, List.append_assoc]

/-- A measurement is read from octets that spell it. -/
theorem decodeMeasurement_eq_ok {m : Measurement}
    (h : decodeMeasurement.run octets = .ok (m, rest)) :
    ∃ front, octets = front ++ rest ∧ Spells front m ∧ m.ns.segments.length < twoTo 64 ∧
      ∀ text ∈ textsOf m, (Text.toOctets text).length < twoTo 64 := by
  obtain ⟨segments, _, hsegments, h⟩ := run_bind_eq_ok_iff.mp h
  obtain ⟨value, _, hvalue, h⟩ := run_bind_eq_ok_iff.mp h
  obtain ⟨t, _, htimestamp, h⟩ := run_bind_eq_ok_iff.mp h
  obtain ⟨rfl, rfl⟩ := run_pure_eq_ok_iff.mp h
  obtain ⟨hnamespace, hcount, hfits⟩ := decodeNamespace_eq_ok hsegments
  obtain ⟨hspelt, htext⟩ := decodeValue_eq_ok hvalue
  obtain ⟨minutes, seconds, hread, hstamp⟩ := decodeTimestamp_eq_ok htimestamp
  refine ⟨_, ?_, ⟨minutes, seconds, hread, rfl⟩, hcount, ?_⟩
  · rw [hnamespace, hspelt, hstamp, measurementHead]
    simp only [List.append_assoc]
  · intro text hmem
    rcases List.mem_append.mp hmem with hsegment | hvalue
    · exact hfits text hsegment
    · cases value <;> simp at hvalue
      exact htext text (by rw [hvalue])

/-! ## Batches -/

/-- A signed number of one octet is that octet. -/
theorem littleEndianSigned_one (n : Int) : littleEndianSigned 1 n = [UInt8.ofInt n] := by
  have hrange : (twoTo (8 * 1) : Int) = 256 := rfl
  have hresidue : (n % 256).toNat % 256 = (n % 256).toNat := by omega
  rw [littleEndianSigned, hrange, littleEndian, hresidue]
  rfl

/-- An octet is as it should be, or has the other sign. -/
def SameUpToSign (octet proper : UInt8) : Prop :=
  octet = proper ∨ octet = -proper

/-- Numbers that differ in sign only have octets that differ in sign only. -/
theorem sameUpToSign_ofInt {n proper : Int} (h : n = proper ∨ n = -proper) :
    SameUpToSign (UInt8.ofInt n) (UInt8.ofInt proper) := by
  rcases h with rfl | rfl
  · exact .inl rfl
  · exact .inr (UInt8.ofInt_neg proper)

/-- Octets that spell a measurement differ from its own at most in the last two of them. -/
theorem Spells.eq_append {front : List UInt8} {m : Measurement} (h : Spells front m) :
    ∃ minutes seconds minutes' seconds',
      front = measurementHead m ++ [minutes, seconds] ∧
      encodeMeasurement m = measurementHead m ++ [minutes', seconds'] ∧
      SameUpToSign minutes minutes' ∧ SameUpToSign seconds seconds' := by
  obtain ⟨minutes, seconds, hread, rfl⟩ := h
  refine ⟨UInt8.ofInt minutes, UInt8.ofInt seconds, UInt8.ofInt m.timestamp.offset.minutes,
    UInt8.ofInt m.timestamp.offset.seconds, ?_, ?_, ?_, ?_⟩
  · rw [littleEndianSigned_one, littleEndianSigned_one, List.singleton_append]
  · rw [encodeMeasurement_eq, littleEndianSigned_one, littleEndianSigned_one,
      List.singleton_append]
  · exact sameUpToSign_ofInt (hread.minuteSign.imp_right And.left)
  · exact sameUpToSign_ofInt (hread.secondSign.imp_right And.left)

/-- The places of the minutes and seconds of offsets in the octets of some measurements. -/
def SignPlace (ms : List Measurement) (i : Nat) : Prop :=
  ∃ before m after, ms = before ++ m :: after ∧
    (i = (before.flatMap encodeMeasurement ++ measurementHead m).length ∨
      i = (before.flatMap encodeMeasurement ++ measurementHead m).length + 1)

/-- Places of signs move back by the octets of a measurement in front. -/
theorem SignPlace.cons {ms : List Measurement} {i : Nat} (h : SignPlace ms i) (m : Measurement) :
    SignPlace (m :: ms) ((encodeMeasurement m).length + i) := by
  obtain ⟨before, other, after, rfl, hplace⟩ := h
  refine ⟨m :: before, other, after, rfl, ?_⟩
  rw [List.flatMap_cons, List.append_assoc, List.length_append]
  omega

/-- Behind some octets the others are found at their own places. -/
theorem getElem?_append_add (front back : List UInt8) (j : Nat) :
    (front ++ back)[front.length + j]? = back[j]? := by
  rw [List.getElem?_append_right (Nat.le_add_right _ j), Nat.add_sub_cancel_left]

/-- Octets that spell measurements differ from their own only in the signs of minutes and seconds
of offsets. -/
theorem getElem?_of_spells {fronts : List (List UInt8)} {ms : List Measurement}
    (h : List.Forall₂ Spells fronts ms) (i : Nat) :
    fronts.flatten[i]? = (ms.flatMap encodeMeasurement)[i]? ∨
      SignPlace ms i ∧ fronts.flatten[i]? = (ms.flatMap encodeMeasurement)[i]?.map (- ·) := by
  induction h generalizing i with
  | nil => exact .inl rfl
  | @cons front m fronts ms hfront _ ih =>
    obtain ⟨minutes, seconds, minutes', seconds', hspelt, hproper, hminutes, hseconds⟩ :=
      hfront.eq_append
    have hlength : (encodeMeasurement m).length = (measurementHead m).length + 2 := by
      rw [hproper, List.length_append]
      rfl
    have hplace (j : Nat) (hj : j = 0 ∨ j = 1) :
        SignPlace (m :: ms) ((measurementHead m).length + j) :=
      ⟨[], m, ms, rfl, by simpa using hj⟩
    have hlater (j : Nat) (hj : SignPlace ms j) :
        SignPlace (m :: ms) ((measurementHead m).length + (j + 2)) := by
      have hcons := hj.cons m
      rwa [hlength, Nat.add_assoc, Nat.add_comm 2 j] at hcons
    rw [List.flatten_cons, List.flatMap_cons, hspelt, hproper, List.append_assoc,
      List.append_assoc]
    -- A place lies in the head of the first measurement, in one of its two last octets, or in the
    -- octets of the later measurements, where the induction hypothesis tells of it.
    by_cases hhead : i < (measurementHead m).length
    · rw [List.getElem?_append_left hhead, List.getElem?_append_left hhead]
      exact .inl rfl
    · obtain ⟨j, rfl⟩ := Nat.exists_eq_add_of_le (Nat.not_lt.mp hhead)
      rw [getElem?_append_add, getElem?_append_add]
      match j with
      | 0 =>
        refine hminutes.imp (congrArg some) fun hsign => ?_
        exact ⟨hplace 0 (.inl rfl), congrArg some hsign⟩
      | 1 =>
        refine hseconds.imp (congrArg some) fun hsign => ?_
        exact ⟨hplace 1 (.inr rfl), congrArg some hsign⟩
      | j + 2 =>
        refine (ih j).imp_right fun ⟨hsign, hoctet⟩ => ?_
        exact ⟨hlater j hsign, hoctet⟩

/-- Octets that spell measurements are as many as their own. -/
theorem length_of_spells {fronts : List (List UInt8)} {ms : List Measurement}
    (h : List.Forall₂ Spells fronts ms) :
    fronts.flatten.length = (ms.flatMap encodeMeasurement).length := by
  induction h with
  | nil => rfl
  | cons hfront _ ih =>
    obtain ⟨_, _, _, _, hspelt, hproper, _, _⟩ := hfront.eq_append
    rw [List.flatten_cons, List.flatMap_cons, List.length_append, List.length_append, ih, hspelt,
      hproper, List.length_append, List.length_append]
    rfl

/-- A batch is decoded when its measurements are, whatever is left over. -/
theorem decode_eq_ok_iff {batch : List Measurement} :
    decode contentType octets = .ok batch ↔
      ∃ rest, (decodeList decodeMeasurement).run octets = .ok (batch, rest) := by
  simp only [decode, decodeFront, if_true]
  cases (decodeList decodeMeasurement).run octets with
  | error fault => simp
  | ok outcome => simp [Prod.ext_iff]

/-- The octets of a batch are the number of its measurements, and then octets that spell them. -/
theorem decodeBatch_eq_ok {batch : List Measurement}
    (h : (decodeList decodeMeasurement).run octets = .ok (batch, rest)) :
    Fits batch ∧ ∃ fronts, octets = littleEndian 8 batch.length ++ fronts.flatten ++ rest ∧
      List.Forall₂ Spells fronts batch := by
  obtain ⟨hcount, hfits, hfronts⟩ := decodeList_eq_ok decodeMeasurement_eq_ok h
  exact ⟨⟨hcount, fun m hm => (hfits m hm).1, fun m hm => (hfits m hm).2⟩, hfronts⟩

/-- Octets from which a batch is decoded begin with its own, up to the signs of minutes and seconds
of offsets that differ in sign from a larger part; and from its own octets the same batch is
decoded. -/
theorem decode_canonical {octets : List UInt8} {batch : List Measurement}
    (h : decode contentType octets = .ok batch) :
    (∃ fronts rest, List.Forall₂ Spells fronts batch ∧
      octets = littleEndian 8 batch.length ++ fronts.flatten ++ rest) ∧
    (encode batch).length ≤ octets.length ∧
    (∀ i < (encode batch).length, octets[i]? = (encode batch)[i]? ∨
      ∃ j, i = 8 + j ∧ SignPlace batch j ∧ octets[i]? = (encode batch)[i]?.map (- ·)) ∧
    decode contentType (encode batch) = .ok batch := by
  obtain ⟨rest, hread⟩ := decode_eq_ok_iff.mp h
  obtain ⟨hfits, fronts, hoctets, hfronts⟩ := decodeBatch_eq_ok hread
  have hlength := length_of_spells hfronts
  have hcount : (littleEndian 8 batch.length).length = 8 := length_littleEndian 8 _
  refine ⟨⟨fronts, rest, hfronts, hoctets⟩, ?_, ?_, ?_⟩
  · rw [hoctets, encode, List.length_append, List.length_append, List.length_append, hlength]
    omega
  · intro i hi
    rw [encode, List.length_append, hcount] at hi
    rw [hoctets, encode, List.append_assoc]
    by_cases hnumber : i < 8
    · rw [List.getElem?_append_left (by omega), List.getElem?_append_left (by omega)]
      exact .inl rfl
    · obtain ⟨j, rfl⟩ := Nat.exists_eq_add_of_le (Nat.not_lt.mp hnumber)
      have hskip (back : List UInt8) :
          (littleEndian 8 batch.length ++ back)[8 + j]? = back[j]? := by
        have hadd := getElem?_append_add (littleEndian 8 batch.length) back j
        rwa [hcount] at hadd
      rw [hskip, hskip, List.getElem?_append_left (by omega)]
      refine (getElem?_of_spells hfronts j).imp_right fun ⟨hsign, hoctet⟩ => ?_
      exact ⟨j, rfl, hsign, hoctet⟩
  · have hwhole := (reads_decodeBatch hfits).whole []
    rw [List.append_nil] at hwhole
    exact decode_eq_ok_iff.mpr ⟨[], hwhole⟩

/-- A measurement two and a half hours and a second east of universal time. -/
def eastern : Measurement where
  ns := ⟨["docker", "web", "cpu"]⟩
  value := .bool true
  timestamp := { Timestamp.newYear2020 with
    offset := ⟨2, 30, 1, by decide, by decide, by decide, by decide⟩ }

/-- Octets that spell it with minus thirty minutes, and one octet more. -/
def mixedSigns : List UInt8 :=
  littleEndian 8 1 ++ measurementHead eastern ++
    (littleEndianSigned 1 (-30) ++ littleEndianSigned 1 1) ++ [7]

/-- Octets that spell a measurement with an opposite sign are decoded as the measurement whose own
octets have the sign of the larger part. -/
theorem decode_canonical_mixedSigns :
    decode contentType mixedSigns = .ok [eastern] ∧ ¬ encode [eastern] <+: mixedSigns ∧
    (encode [eastern]).length ≤ mixedSigns.length ∧
    (∀ i < (encode [eastern]).length, mixedSigns[i]? = (encode [eastern])[i]? ∨
      ∃ j, i = 8 + j ∧ SignPlace [eastern] j ∧
        mixedSigns[i]? = (encode [eastern])[i]?.map (- ·)) ∧
    decode contentType (encode [eastern]) = .ok [eastern] := by
  have hdecode : decode contentType mixedSigns = .ok [eastern] := by decide +kernel
  have hdiffer : ¬ encode [eastern] <+: mixedSigns := by decide +kernel
  exact ⟨hdecode, hdiffer, (decode_canonical hdecode).2⟩

end ContainerFeed.Batch
