import ContainerFeed.Ingest.Round
import ContainerFeed.Proofs.Time.Calendar
import Mathlib.Algebra.BigOperators.Group.Finset.Basic

/-!
# The time of a sample

The time of a sample is that of its measurement, moved and then cut to whole seconds. To say this
without the arithmetic of timestamps, time is counted here from the beginning of 1970, by adding up
the lengths of the years one after another. The count of a sample's time is the moved count of its
measurement rounded down, before 1970 as well as after it.
-/

namespace ContainerFeed

/-- How many days some years have, the first of them and those that follow it. -/
def daysOfYears (first : Int) (years : Nat) : Int :=
  ∑ i ∈ Finset.range years, (daysInYear (first + i) : Int)

/-- The days of some years lie between the first of them and the one after the last. -/
theorem daysOfYears_eq (first : Int) (years : Nat) :
    daysOfYears first years = daysBeforeYear (first + years) - daysBeforeYear first := by
  have hyear (i : Nat) : (daysInYear (first + i) : Int) =
      daysBeforeYear (first + (i + 1 : Nat)) - daysBeforeYear (first + i) := by
    rw [Int.natCast_succ, ← Int.add_assoc, daysBeforeYear_succ]
    omega
  rw [daysOfYears, Finset.sum_congr rfl fun i _ => hyear i,
    Finset.sum_range_sub fun i : Nat => daysBeforeYear (first + i)]
  simp

/-- The number of days from the beginning of 1970 to the beginning of a year, negative for the years
before. -/
def daysSince1970 (year : Int) : Int :=
  daysOfYears 1970 (year - 1970).toNat - daysOfYears year (1970 - year).toNat

/-- Days since 1970 are days of the calendar, counted from there. -/
theorem daysSince1970_eq (year : Int) :
    daysSince1970 year = daysBeforeYear year - daysBeforeYear 1970 := by
  rw [daysSince1970, daysOfYears_eq, daysOfYears_eq]
  rcases Int.le_total 1970 year with hle | hle
  · rw [show (1970 : Int) + (year - 1970).toNat = year by omega,
      show year + (1970 - year).toNat = year by omega]
    omega
  · rw [show (1970 : Int) + (year - 1970).toNat = 1970 by omega,
      show year + (1970 - year).toNat = 1970 by omega]
    omega

namespace Timestamp

/-! ## Counting from 1970 -/

/-- What the local clock has counted since it showed the beginning of 1970, in nanoseconds. -/
def localCount (t : Timestamp) : Int :=
  (daysSince1970 t.date.year + (t.date.ordinal - 1)) * 86400000000000 +
    (t.time.hour * 3600 + t.time.minute * 60 + t.time.second) * 1000000000 + t.time.nanosecond

/-- The nanoseconds from the beginning of 1970 in universal time to the instant. -/
def count (t : Timestamp) : Int :=
  t.localCount -
    (t.offset.hours * 3600 + t.offset.minutes * 60 + t.offset.seconds) * 1000000000

/-- A count whose date lies in the years from -9999 to 9999. -/
def InYears (n : Int) : Prop :=
  daysSince1970 (-9999) * 86400000000000 ≤ n ∧ n < daysSince1970 10000 * 86400000000000

instance (n : Int) : Decidable (InYears n) :=
  inferInstanceAs (Decidable (_ ∧ _))

/-- The beginning of 1970 in the count from year 1. -/
def epoch : Int :=
  daysBeforeYear 1970 * dayLength

/-- Local time from the year 1 is the count from 1970 on top of the beginning of 1970. -/
theorem localNanoseconds_eq (t : Timestamp) : t.localNanoseconds = t.localCount + epoch := by
  rw [localCount, daysSince1970_eq]
  unfold localNanoseconds epoch Date.dayNumber dayLength TimeOfDay.nanoseconds TimeOfDay.seconds
  omega

/-- An instant from the year 1 is the count from 1970 on top of the beginning of 1970. -/
theorem instant_eq (t : Timestamp) : t.instant = t.count + epoch := by
  simp only [instant, localNanoseconds_eq, count, UtcOffset.totalSeconds, Span.second]
  omega

/-- The years of a count are those that can be represented. -/
theorem inYears_iff {n : Int} : InYears n ↔ firstLocal ≤ n + epoch ∧ n + epoch < endLocal := by
  rw [InYears, daysSince1970_eq, daysSince1970_eq]
  unfold firstLocal endLocal epoch dayLength
  omega

/-! ## Arithmetic on counts -/

/-- Where the date of the moved local time can be represented, a timestamp is moved by the whole
span, and else it stays as it is. -/
def movedCount (t : Timestamp) (span : Span) : Int :=
  if InYears (t.localCount + span.nanoseconds) then t.count + span.nanoseconds else t.count

/-- A moved timestamp has the moved count. -/
theorem count_add? (t : Timestamp) (span : Span) :
    ((t.add? span).getD t).count = t.movedCount span := by
  have hrange : (t.add? span).isSome ↔ InYears (t.localCount + span.nanoseconds) := by
    rw [add?, ofLocalNanoseconds?_isSome_iff, inYears_iff, localNanoseconds_eq]
    omega
  unfold movedCount
  cases hmoved : t.add? span with
  | none =>
    rw [if_neg (hrange.not.mp (by simp [hmoved]))]
    rfl
  | some moved =>
    rw [if_pos (hrange.mp (by simp [hmoved]))]
    obtain ⟨hlocal, hoffset⟩ := ofLocalNanoseconds?_eq_some hmoved
    have hinstant : moved.instant = t.instant + span.nanoseconds := by
      rw [instant, instant, hlocal, hoffset]
      omega
    rw [instant_eq, instant_eq] at hinstant
    show moved.count = _
    omega

/-- A timestamp has a counterpart in universal time where its date can be represented there. -/
theorem toUtc?_isSome_iff {t : Timestamp} : t.toUtc?.isSome ↔ InYears t.count := by
  rw [toUtc?, ofLocalNanoseconds?_isSome_iff, inYears_iff, instant_eq]

/-- In universal time an instant has the same count. -/
theorem toUtc?_eq_some {t universal : Timestamp} (h : t.toUtc? = some universal) :
    universal.count = t.count ∧ universal.offset = .utc := by
  obtain ⟨hlocal, hoffset⟩ := ofLocalNanoseconds?_eq_some h
  refine ⟨?_, hoffset⟩
  have hinstant : universal.instant = t.instant := by
    rw [instant, hlocal, hoffset]
    exact Int.sub_zero _
  rw [instant_eq, instant_eq] at hinstant
  omega

/-- The counterpart in universal time depends on the instant only. -/
theorem toUtc?_of_count_eq {a b : Timestamp} (h : a.count = b.count) : a.toUtc? = b.toUtc? := by
  rw [toUtc?, toUtc?, instant_eq, instant_eq, h]

/-- Days, hours, minutes and offsets are whole seconds, so a count is cut to whole seconds where the
time of day is. -/
theorem count_wholeSecond (t : Timestamp) :
    t.wholeSecond.count = t.count / 1000000000 * 1000000000 := by
  have hpart := t.time.nanosecond_lt
  simp only [count, localCount, wholeSecond, TimeOfDay.wholeSecond]
  omega

/-! ## Sample times -/

/-- A sample time is in universal time and whole seconds, and counts what its measurement does once
it is moved, rounded down. -/
theorem sampleTime?_eq_some {measured t : Timestamp} {delta : Span}
    (h : measured.sampleTime? delta = some t) : t.offset = .utc ∧ t.time.nanosecond = 0 ∧
      t.count = measured.movedCount delta / 1000000000 * 1000000000 := by
  obtain ⟨universal, huniversal, rfl⟩ := Option.map_eq_some_iff.mp h
  obtain ⟨hcount, hoffset⟩ := toUtc?_eq_some huniversal
  refine ⟨hoffset, rfl, ?_⟩
  rw [count_wholeSecond, hcount, count_add?]

/-- The time of a sample is found where the moved date can be represented in universal time. It is
in universal time and whole seconds, and its count is the moved count rounded down. So it is the
same for one instant in all offsets that it can be moved in. -/
theorem sampleTime_rounds_down (measured : Timestamp) (delta : Span) :
    ((measured.sampleTime? delta).isSome ↔ InYears (measured.movedCount delta)) ∧
    (∀ t, measured.sampleTime? delta = some t → t.offset = .utc ∧ t.time.nanosecond = 0 ∧
      t.count = measured.movedCount delta / 1000000000 * 1000000000) ∧
    ∀ other : Timestamp, other.count = measured.count →
      InYears (measured.localCount + delta.nanoseconds) →
      InYears (other.localCount + delta.nanoseconds) →
      other.sampleTime? delta = measured.sampleTime? delta := by
  refine ⟨?_, fun t ht => sampleTime?_eq_some ht, fun other hsame hmeasured hother => ?_⟩
  · rw [sampleTime?, Option.isSome_map, toUtc?_isSome_iff, count_add?]
  · have hmoved : ((other.add? delta).getD other).count =
        ((measured.add? delta).getD measured).count := by
      rw [count_add?, count_add?, movedCount, movedCount, if_pos hmeasured, if_pos hother, hsame]
    rw [sampleTime?, sampleTime?, toUtc?_of_count_eq hmoved]

/-- A quarter of a second after the beginning of 1970, in universal time. -/
def newYear1970 : Timestamp :=
  ⟨⟨1970, 1, by decide, by decide⟩, .ofNanoseconds 250000000, .utc⟩

/-- The same instant, two and a half hours to the east. -/
def newYear1970East : Timestamp :=
  ⟨⟨1970, 1, by decide, by decide⟩, .ofNanoseconds 9000250000000,
    (UtcOffset.make? 2 30 0).getD .utc⟩

/-- A second and a half earlier is more than a second before 1970, and the sample time is two
seconds before it, in both offsets. -/
theorem sampleTime_rounds_down_newYear1970 :
    let delta : Span := ⟨-1500000000⟩
    ∃ t, newYear1970.sampleTime? delta = some t ∧
      newYear1970.movedCount delta = -1250000000 ∧
      t.offset = .utc ∧ t.time.nanosecond = 0 ∧ t.count = -2000000000 ∧
      newYear1970East.count = newYear1970.count ∧
      InYears (newYear1970.localCount + delta.nanoseconds) ∧
      InYears (newYear1970East.localCount + delta.nanoseconds) ∧
      newYear1970East.sampleTime? delta = some t := by
  intro delta
  obtain ⟨hsome, hrounds, hoffsets⟩ := sampleTime_rounds_down newYear1970 delta
  have hhere : InYears (newYear1970.localCount + delta.nanoseconds) :=
    inYears_iff.mpr (by decide +kernel)
  have heast : InYears (newYear1970East.localCount + delta.nanoseconds) :=
    inYears_iff.mpr (by decide +kernel)
  have hsame : newYear1970East.count = newYear1970.count := by decide +kernel
  have hmoved : newYear1970.movedCount delta = -1250000000 := by
    rw [movedCount, if_pos hhere]
    decide +kernel
  obtain ⟨t, ht⟩ := Option.isSome_iff_exists.mp
    (hsome.mpr (hmoved ▸ inYears_iff.mpr (by decide +kernel)))
  obtain ⟨hoffset, hpart, hcount⟩ := hrounds t ht
  refine ⟨t, ht, hmoved, hoffset, hpart, ?_, hsame, hhere, heast, ?_⟩
  · rw [hcount, hmoved]
    decide
  · rw [hoffsets newYear1970East hsame hhere heast, ht]

end Timestamp

end ContainerFeed
