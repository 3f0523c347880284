import ContainerFeed.Time.Timestamp

/-!
# Days and years

The years follow each other without gaps, and the year that is computed for a day is the one it
lies in. So the representable days form one interval, and a date that is found for a day is a date
of that day. Timestamps inherit both: arithmetic on them is exact, and fails only where it leaves
the interval.
-/

namespace ContainerFeed

/-- A year ends where the next one begins. -/
theorem daysBeforeYear_succ (year : Int) :
    daysBeforeYear (year + 1) = daysBeforeYear year + daysInYear year := by
  unfold daysBeforeYear daysInYear isLeapYear
  split <;> simp_all <;> omega

/-- The days before a year are its share of the 400-year cycle, up to two days. -/
theorem daysBeforeYear_bounds (year : Int) :
    146097 * (year - 1) - 699 ≤ 400 * daysBeforeYear year ∧
      400 * daysBeforeYear year ≤ 146097 * (year - 1) + 396 := by
  unfold daysBeforeYear
  omega

/-- Later years have at least as many days before them. -/
theorem daysBeforeYear_mono {a b : Int} (h : a ≤ b) : daysBeforeYear a ≤ daysBeforeYear b := by
  unfold daysBeforeYear
  omega

namespace Date

/-- The year of a day has begun by that day, and is not over. -/
theorem yearOfDay_bounds (day : Int) :
    daysBeforeYear (yearOfDay day) ≤ day ∧ day < daysBeforeYear (yearOfDay day + 1) := by
  have hguess := daysBeforeYear_bounds (day * 400 / 146097 + 1)
  have hlater := daysBeforeYear_bounds (day * 400 / 146097 + 1 + 1 + 1)
  simp only [yearOfDay]
  split
  · omega
  · split <;> omega

/-- No day of a date lies beyond its year. -/
theorem ordinal_le_daysInYear (date : Date) : (date.ordinal : Int) ≤ daysInYear date.year :=
  Int.ofNat_le.mpr date.ordinal_range.2

/-- Every date is a day from the year -9999 to the year 9999. -/
theorem dayNumber_range (date : Date) :
    daysBeforeYear (-9999) ≤ date.dayNumber ∧ date.dayNumber < daysBeforeYear 10000 := by
  have hfirst := daysBeforeYear_mono date.year_range.1
  have hlast : daysBeforeYear (date.year + 1) ≤ daysBeforeYear 10000 :=
    daysBeforeYear_mono (by have := date.year_range.2; omega)
  have hlength := daysBeforeYear_succ date.year
  have hordinal := date.ordinal_le_daysInYear
  have hpositive := date.ordinal_range.1
  unfold dayNumber
  omega

/-- The date that is found for a day is a date of that day. -/
theorem dayNumber_of_ofDayNumber? {day : Int} {date : Date} (h : ofDayNumber? day = some date) :
    date.dayNumber = day := by
  simp only [ofDayNumber?, make?] at h
  split at h
  · rename_i hrange
    obtain rfl := Option.some.inj h
    unfold dayNumber
    simp only
    omega
  · simp at h

/-- A day has a date when it lies in the years that can be represented. -/
theorem ofDayNumber?_isSome_iff {day : Int} :
    (ofDayNumber? day).isSome ↔ daysBeforeYear (-9999) ≤ day ∧ day < daysBeforeYear 10000 := by
  constructor
  · intro h
    obtain ⟨date, hdate⟩ := Option.isSome_iff_exists.mp h
    rw [← dayNumber_of_ofDayNumber? hdate]
    exact date.dayNumber_range
  · rintro ⟨hfirst, hlast⟩
    obtain ⟨hbegun, hover⟩ := yearOfDay_bounds day
    have hlow : -9999 ≤ yearOfDay day := by
      refine Int.not_lt.mp fun hlt => ?_
      have := daysBeforeYear_mono (show yearOfDay day + 1 ≤ -9999 by omega)
      omega
    have hhigh : yearOfDay day ≤ 9999 := by
      refine Int.not_lt.mp fun hlt => ?_
      have := daysBeforeYear_mono (show 10000 ≤ yearOfDay day by omega)
      omega
    have hlength := daysBeforeYear_succ (yearOfDay day)
    have hrange : (-9999 ≤ yearOfDay day ∧ yearOfDay day ≤ 9999) ∧
        1 ≤ (day - daysBeforeYear (yearOfDay day) + 1).toNat ∧
        (day - daysBeforeYear (yearOfDay day) + 1).toNat ≤ daysInYear (yearOfDay day) := by
      omega
    simp only [ofDayNumber?, make?, dif_pos hrange, Option.isSome_some]

end Date

/-! ## Times of day -/

namespace TimeOfDay

/-- A time of day is that of its nanoseconds. -/
theorem nanoseconds_ofNanoseconds {n : Nat} (h : n < 86400000000000) :
    (ofNanoseconds n).nanoseconds = n := by
  simp only [nanoseconds, seconds, ofNanoseconds]
  omega

/-- A time of day lies within its day. -/
theorem nanoseconds_lt (time : TimeOfDay) : time.nanoseconds < 86400000000000 := by
  have hhour := time.hour_lt
  have hminute := time.minute_lt
  have hsecond := time.second_lt
  have hnanosecond := time.nanosecond_lt
  simp only [nanoseconds, seconds]
  omega

end TimeOfDay

/-! ## Timestamps -/

namespace Timestamp

/-- The beginning of the year 2020, in universal time. -/
def newYear2020 : Timestamp :=
  ⟨⟨2020, 1, by decide, by decide⟩, .ofNanoseconds 0, .utc⟩

/-- The first local time that can be represented. -/
def firstLocal : Int :=
  daysBeforeYear (-9999) * dayLength

/-- The end of the local times that can be represented. -/
def endLocal : Int :=
  daysBeforeYear 10000 * dayLength

/-- Every local time lies in the range that can be represented. -/
theorem localNanoseconds_range (t : Timestamp) :
    firstLocal ≤ t.localNanoseconds ∧ t.localNanoseconds < endLocal := by
  have hdate := t.date.dayNumber_range
  have htime := t.time.nanoseconds_lt
  unfold firstLocal endLocal localNanoseconds dayLength
  omega

/-- The timestamp that is found for a local time has that time, and the given offset. -/
theorem ofLocalNanoseconds?_eq_some {n : Int} {offset : UtcOffset} {t : Timestamp}
    (h : ofLocalNanoseconds? n offset = some t) : t.localNanoseconds = n ∧ t.offset = offset := by
  obtain ⟨date, hdate, rfl⟩ := Option.map_eq_some_iff.mp h
  have hday := Date.dayNumber_of_ofDayNumber? hdate
  have hmod : 0 ≤ n % dayLength ∧ n % dayLength < 86400000000000 := by
    unfold dayLength
    omega
  have htime := TimeOfDay.nanoseconds_ofNanoseconds (n := (n % dayLength).toNat) (by omega)
  have hsplit : n / dayLength * dayLength + n % dayLength = n := Int.ediv_mul_add_emod n dayLength
  refine ⟨?_, rfl⟩
  simp only [localNanoseconds, hday, htime]
  omega

/-- A local time is found exactly in the range that can be represented. -/
theorem ofLocalNanoseconds?_isSome_iff {n : Int} {offset : UtcOffset} :
    (ofLocalNanoseconds? n offset).isSome ↔ firstLocal ≤ n ∧ n < endLocal := by
  rw [ofLocalNanoseconds?, Option.isSome_map, Date.ofDayNumber?_isSome_iff]
  unfold firstLocal endLocal dayLength
  omega

/-- A span earlier is that many nanoseconds earlier, in the same offset. -/
theorem sub?_eq_some {t earlier : Timestamp} {span : Span} (h : t.sub? span = some earlier) :
    earlier.instant = t.instant - span.nanoseconds ∧ earlier.offset = t.offset := by
  obtain ⟨hlocal, hoffset⟩ := ofLocalNanoseconds?_eq_some h
  refine ⟨?_, hoffset⟩
  simp only [instant, hlocal, hoffset, Span.neg]
  omega

/-- In one offset, what can be subtracted from a time can be subtracted from any later one. -/
theorem isSome_sub?_of_le {a b : Timestamp} {span : Span} (hoffset : a.offset = b.offset)
    (hle : a.instant ≤ b.instant) (hspan : 0 ≤ span.nanoseconds) (h : (a.sub? span).isSome) :
    (b.sub? span).isSome := by
  obtain ⟨hfirst, _⟩ := ofLocalNanoseconds?_isSome_iff.mp h
  refine ofLocalNanoseconds?_isSome_iff.mpr ?_
  have hlast := b.localNanoseconds_range.2
  simp only [instant, hoffset] at hle
  simp only [Span.neg] at hfirst ⊢
  omega

end Timestamp

end ContainerFeed
