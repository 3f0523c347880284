import ContainerFeed.Proofs.Text.OctetOrder
import ContainerFeed.Proofs.Time.SampleTime
import Mathlib.Algebra.GroupWithZero.Nat

/-!
# Stamps compare like times

A stamp spells the numbers of a time from the year down to the second, each with a fixed width. So
the first number that differs decides between two stamps. It decides between the two times as well,
because an earlier day of a year has an earlier month or an earlier day of that month.
-/

namespace ContainerFeed

/-! ## Dates by month and day -/

namespace Date

/-- Months are counted up from the one that the search begins with. -/
theorem le_monthAndDay (month day : Nat) (lengths : List Nat) :
    month ≤ (monthAndDay month day lengths).1 := by
  induction lengths generalizing month day with
  | nil => exact Nat.le_refl month
  | cons length rest ih =>
    rw [monthAndDay]
    split
    · exact Nat.le_refl month
    · exact Nat.le_of_succ_le (ih _ _)

/-- The search for a month ends behind the last one at the latest. -/
theorem monthAndDay_le (month day : Nat) (lengths : List Nat) :
    (monthAndDay month day lengths).1 ≤ month + lengths.length := by
  induction lengths generalizing month day with
  | nil => exact Nat.le_refl month
  | cons length rest ih =>
    rw [monthAndDay]
    split
    · exact Nat.le_add_right _ _
    · have := ih (month + 1) (day - length)
      rw [List.length_cons]
      omega

/-- The day of the month is none that the longest month does not have. -/
theorem dayOfMonth_le {bound : Nat} (month day : Nat) {lengths : List Nat}
    (hbound : ∀ length ∈ lengths, length ≤ bound) (hday : day ≤ lengths.sum) :
    (monthAndDay month day lengths).2 ≤ bound := by
  induction lengths generalizing month day with
  | nil =>
    have : day ≤ 0 := hday
    exact Nat.le_trans this (Nat.zero_le bound)
  | cons length rest ih =>
    obtain ⟨hfirst, hrest⟩ := List.forall_mem_cons.mp hbound
    rw [List.sum_cons] at hday
    rw [monthAndDay]
    split
    · rename_i hle
      exact Nat.le_trans hle hfirst
    · exact ih _ _ hrest (by omega)

/-- An earlier day falls into an earlier month, or on an earlier day of the same month. -/
theorem monthAndDay_lt {a b : Nat} (h : a < b) (month : Nat) (lengths : List Nat) :
    (monthAndDay month a lengths).1 < (monthAndDay month b lengths).1 ∨
      (monthAndDay month a lengths).1 = (monthAndDay month b lengths).1 ∧
        (monthAndDay month a lengths).2 < (monthAndDay month b lengths).2 := by
  induction lengths generalizing month a b with
  | nil => exact .inr ⟨rfl, h⟩
  | cons length rest ih =>
    rw [monthAndDay, monthAndDay]
    by_cases hb : b ≤ length
    · rw [if_pos hb, if_pos (by omega)]
      exact .inr ⟨rfl, h⟩
    · rw [if_neg hb]
      by_cases ha : a ≤ length
      · rw [if_pos ha]
        exact .inl (le_monthAndDay _ _ _)
      · rw [if_neg ha]
        exact ih (by omega) _

/-- The months of a year make up its days. -/
theorem sum_monthLengths (year : Int) : (monthLengths year).sum = daysInYear year := by
  unfold monthLengths daysInYear
  split <;> rfl

/-- The month and the day of a date have two digits at most. -/
theorem month_bounds (date : Date) : date.month.1 ≤ 13 ∧ date.month.2 ≤ 31 := by
  refine ⟨monthAndDay_le _ _ _, dayOfMonth_le _ _ ?_ ?_⟩
  · unfold monthLengths
    split <;> decide
  · rw [sum_monthLengths]
    exact date.ordinal_range.2

section DayNumber

variable {a b : Date}

/-- The days of a year come before all days of a later one. -/
theorem dayNumber_lt_of_year_lt (h : a.year < b.year) : a.dayNumber < b.dayNumber := by
  have hnext : daysBeforeYear (a.year + 1) ≤ daysBeforeYear b.year := daysBeforeYear_mono h
  have hlength := daysBeforeYear_succ a.year
  have hordinal := a.ordinal_le_daysInYear
  have hpositive := b.ordinal_range.1
  unfold dayNumber
  omega

/-- Of two days the earlier one is in an earlier year, or comes earlier in the same year. -/
theorem lt_of_dayNumber_lt (h : a.dayNumber < b.dayNumber) :
    a.year < b.year ∨ a.year = b.year ∧ a.ordinal < b.ordinal := by
  rcases Int.lt_trichotomy a.year b.year with hlt | heq | hgt
  · exact .inl hlt
  · refine .inr ⟨heq, ?_⟩
    unfold dayNumber at h
    rw [heq] at h
    omega
  · exact absurd (dayNumber_lt_of_year_lt hgt) (by omega)

/-- A day has one date only. -/
theorem dayNumber_injective (h : a.dayNumber = b.dayNumber) : a = b := by
  rcases Int.lt_trichotomy a.year b.year with hlt | heq | hgt
  · exact absurd (dayNumber_lt_of_year_lt hlt) (by omega)
  · have hordinal : a.ordinal = b.ordinal := by
      unfold dayNumber at h
      rw [heq] at h
      omega
    cases a
    cases b
    cases heq
    cases hordinal
    rfl
  · exact absurd (dayNumber_lt_of_year_lt hgt) (by omega)

end DayNumber

end Date

namespace TimeOfDay

/-- The seconds of a time lie within its day. -/
theorem seconds_lt (time : TimeOfDay) : time.seconds < 86400 := by
  have hhour := time.hour_lt
  have hminute := time.minute_lt
  have hsecond := time.second_lt
  unfold seconds
  omega

section Seconds

variable {a b : TimeOfDay}

/-- Of two times of day in whole seconds, the first part that differs tells which is the earlier. -/
theorem lt_of_seconds_lt (h : a.seconds < b.seconds) :
    a.hour < b.hour ∨ a.hour = b.hour ∧
      (a.minute < b.minute ∨ a.minute = b.minute ∧ a.second < b.second) := by
  have haminute := a.minute_lt
  have hasecond := a.second_lt
  have hbminute := b.minute_lt
  have hbsecond := b.second_lt
  unfold seconds at h
  omega

/-- Times of day with the same seconds and the same part of a second are the same. -/
theorem eq_of_seconds_eq (h : a.seconds = b.seconds) (hpart : a.nanosecond = b.nanosecond) :
    a = b := by
  have haminute := a.minute_lt
  have hasecond := a.second_lt
  have hbminute := b.minute_lt
  have hbsecond := b.second_lt
  unfold seconds at h
  have hhour : a.hour = b.hour := by omega
  have hminute : a.minute = b.minute := by omega
  have hsecond : a.second = b.second := by omega
  cases a
  cases b
  simp_all

end Seconds

end TimeOfDay

namespace Timestamp

/-! ## Numbers of a fixed width -/

/-- The last digit of a number stands behind what is left without it. -/
theorem padded_succ {width : Nat} (hwidth : 1 ≤ width) (n : Nat) :
    padded (width + 1) n = padded width (n / 10) ++ [Nat.digitChar (n % 10)] := by
  by_cases hsmall : n < 10
  · obtain ⟨rest, rfl⟩ := Nat.exists_eq_add_of_le' hwidth
    rw [padded, padded, Nat.div_eq_of_lt hsmall, Nat.mod_eq_of_lt hsmall,
      Nat.toDigits_of_lt_base hsmall, Nat.toDigits_zero]
    simp [List.replicate_succ']
  · rw [padded, Nat.toDigits_of_base_le (by decide) (Nat.le_of_not_lt hsmall)]
    simp [padded]

section Padded

variable {width m n : Nat}

/-- A number that has room in its width is written in this width. -/
theorem length_padded (hwidth : 1 ≤ width) (hn : n < 10 ^ width) :
    (padded width n).length = width := by
  induction width, hwidth using Nat.le_induction generalizing n with
  | base => rw [padded, Nat.toDigits_of_lt_base (by omega)]; rfl
  | succ width hwidth ih =>
    rw [padded_succ hwidth, List.length_append, ih (by omega), List.length_singleton]

/-- A number of a fixed width is written with nothing but digits. -/
theorem isDigit_of_mem_padded {c : Char} (h : c ∈ padded width n) : c.isDigit = true := by
  rcases List.mem_append.mp h with hzero | hdigit
  · rw [List.eq_of_mem_replicate hzero]
    decide
  · exact Nat.isDigit_of_mem_toDigits (by decide) (by decide) hdigit

/-- A greater digit is a greater character. -/
theorem digitChar_lt {a b : Nat} (hb : b < 10) (h : a < b) : Nat.digitChar a < Nat.digitChar b := by
  have hall : ∀ b < 10, ∀ a < b, Nat.digitChar a < Nat.digitChar b := by decide
  exact hall b hb a h

/-- With one width the greater number has the greater digits. -/
theorem padded_lt (hwidth : 1 ≤ width) (hn : n < 10 ^ width) (h : m < n) :
    padded width m < padded width n := by
  induction width, hwidth using Nat.le_induction generalizing m n with
  | base =>
    rw [padded, padded, Nat.toDigits_of_lt_base (by omega), Nat.toDigits_of_lt_base (by omega)]
    exact List.cons_lt_cons_iff.mpr (.inl (digitChar_lt (by omega) h))
  | succ width hwidth ih =>
    have hfront : n / 10 < 10 ^ width := by omega
    rw [padded_succ hwidth, padded_succ hwidth]
    rcases Nat.lt_or_eq_of_le (Nat.div_le_div_right (c := 10) (Nat.le_of_lt h)) with hlt | heq
    · refine Text.append_lt_append ?_ (ih hfront hlt) _ _
      rw [length_padded hwidth (by omega), length_padded hwidth hfront]
    · rw [heq]
      exact List.append_left_lt
        (List.cons_lt_cons_iff.mpr (.inl (digitChar_lt (Nat.mod_lt _ (by decide)) (by omega))))

end Padded

/-! ## The numbers of a stamp -/

/-- Numbers one after another, each with its width and followed by its mark. -/
def spell : List (Nat × Char) → List Nat → List Char
  | (width, mark) :: fields, n :: numbers => padded width n ++ mark :: spell fields numbers
  | _, _ => []

/-- Numbers that have room in their fields. -/
def Fitting : List (Nat × Char) → List Nat → Prop :=
  List.Forall₂ fun field n => 1 ≤ field.1 ∧ n < 10 ^ field.1

/-- Numbers that have room are spelt in the widths of their fields, each with its mark. -/
theorem length_spell {fields : List (Nat × Char)} {numbers : List Nat}
    (h : Fitting fields numbers) :
    (spell fields numbers).length = (fields.map fun field => field.1 + 1).sum := by
  induction h with
  | nil => rfl
  | cons hfirst _ ih =>
    rw [spell, List.length_append, length_padded hfirst.1 hfirst.2, List.length_cons, ih,
      List.map_cons, List.sum_cons]
    omega

/-- A spelling holds only digits and marks. -/
theorem digit_or_mark {fields : List (Nat × Char)} {numbers : List Nat} {c : Char}
    (h : c ∈ spell fields numbers) : c.isDigit = true ∨ c ∈ fields.map Prod.snd := by
  fun_induction spell fields numbers with
  | case1 width mark fields n numbers ih =>
    rcases List.mem_append.mp h with hdigit | hrest
    · exact .inl (isDigit_of_mem_padded hdigit)
    · rw [List.map_cons]
      rcases List.mem_cons.mp hrest with rfl | hlater
      · exact .inr List.mem_cons_self
      · exact (ih hlater).imp_right (List.mem_cons_of_mem _)
  | case2 => cases h

/-- The first number that differs decides between two spellings. -/
theorem spell_lt {fields : List (Nat × Char)} {as bs : List Nat} (ha : Fitting fields as)
    (hb : Fitting fields bs) (h : as < bs) : spell fields as < spell fields bs := by
  induction ha generalizing bs with
  | nil =>
    cases hb
    exact absurd h (List.lt_irrefl _)
  | @cons field a fields as hfit _ ih =>
    obtain ⟨b, bs, hfits, hrest, rfl⟩ := List.forall₂_cons_left_iff.mp hb
    rw [spell, spell]
    rcases List.cons_lt_cons_iff.mp h with hlt | ⟨rfl, hlater⟩
    · refine Text.append_lt_append ?_ (padded_lt hfit.1 hfits.2 hlt) _ _
      rw [length_padded hfit.1 hfit.2, length_padded hfits.1 hfits.2]
    · exact List.append_left_lt (List.cons_lt_cons_iff.mpr (.inr ⟨rfl, ih hrest hlater⟩))

/-- The fields of a stamp: how wide each number is and what follows it. -/
def stampFields : List (Nat × Char) :=
  [(4, '-'), (2, '-'), (2, 'T'), (2, ':'), (2, ':'), (2, 'Z')]

/-- The numbers of a time that its stamp spells. -/
def numbers (t : Timestamp) : List Nat :=
  [t.date.year.toNat, t.date.month.1, t.date.month.2, t.time.hour, t.time.minute, t.time.second]

/-- A stamp spells the numbers of a time that is not before the year 0. -/
theorem stamp?_eq_some_iff {t : Timestamp} {stamp : String} :
    t.stamp? = some stamp ↔
      0 ≤ t.date.year ∧ stamp = String.ofList (spell stampFields t.numbers) := by
  have hspell : spell stampFields t.numbers = padded 4 t.date.year.toNat ++ '-' ::
      padded 2 t.date.month.1 ++ '-' :: padded 2 t.date.month.2 ++ 'T' :: padded 2 t.time.hour ++
      ':' :: padded 2 t.time.minute ++ ':' :: padded 2 t.time.second ++ ['Z'] := by
    simp [spell, stampFields, numbers]
  rw [stamp?, hspell]
  split
  · rename_i hneg
    simp [Int.not_le_of_gt hneg]
  · rename_i hpos
    simp [Int.not_lt.mp hpos, eq_comm]

/-- The numbers of a time have room in a stamp. -/
theorem fitting_numbers (t : Timestamp) : Fitting stampFields t.numbers := by
  have hyear := t.date.year_range.2
  have hmonth := t.date.month_bounds
  have hhour := t.time.hour_lt
  have hminute := t.time.minute_lt
  have hsecond := t.time.second_lt
  simp only [Fitting, stampFields, numbers, List.forall₂_cons, List.forall₂_nil_left_iff, and_true]
  omega

/-! ## Times in whole seconds -/

/-- Whether a time is in universal time and whole seconds, as those of samples are. -/
def InSeconds (t : Timestamp) : Prop :=
  t.offset = .utc ∧ t.time.nanosecond = 0

/-- The time of a sample is in universal time and whole seconds. -/
theorem inSeconds_of_sampleTime? {measured t : Timestamp} {delta : Span}
    (h : measured.sampleTime? delta = some t) : t.InSeconds :=
  ⟨(sampleTime?_eq_some h).1, (sampleTime?_eq_some h).2.1⟩

section InSeconds

variable {a b : Timestamp}

/-- The count of a time in whole seconds is made up of its days and seconds. -/
theorem count_of_inSeconds {t : Timestamp} (h : t.InSeconds) :
    t.count + epoch = (t.date.dayNumber * 86400 + t.time.seconds) * 1000000000 := by
  obtain ⟨hoffset, hpart⟩ := h
  have htotal : UtcOffset.utc.totalSeconds = 0 := rfl
  rw [← instant_eq, instant, hoffset, htotal]
  unfold localNanoseconds dayLength TimeOfDay.nanoseconds
  rw [hpart]
  omega

/-- A time in whole seconds is known by its count. -/
theorem eq_of_count_eq (ha : a.InSeconds) (hb : b.InSeconds) (h : a.count = b.count) : a = b := by
  have hcount := count_of_inSeconds ha
  rw [h, count_of_inSeconds hb] at hcount
  have hatime := a.time.seconds_lt
  have hbtime := b.time.seconds_lt
  have hdate : a.date = b.date := Date.dayNumber_injective (by omega)
  have htime : a.time = b.time :=
    TimeOfDay.eq_of_seconds_eq (by omega) (ha.2.trans hb.2.symm)
  have hoffset : a.offset = b.offset := ha.1.trans hb.1.symm
  cases a
  cases b
  cases hdate
  cases htime
  cases hoffset
  rfl

/-- Of two times in whole seconds, the earlier one is on an earlier day, or earlier on that day. -/
theorem lt_of_count_lt (ha : a.InSeconds) (hb : b.InSeconds) (h : a.count < b.count) :
    a.date.dayNumber < b.date.dayNumber ∨ a.date = b.date ∧ a.time.seconds < b.time.seconds := by
  have hacount := count_of_inSeconds ha
  have hbcount := count_of_inSeconds hb
  have hatime := a.time.seconds_lt
  have hbtime := b.time.seconds_lt
  by_cases hdays : a.date.dayNumber < b.date.dayNumber
  · exact .inl hdays
  · exact .inr ⟨Date.dayNumber_injective (by omega), by omega⟩

/-- Of two times in whole seconds, the numbers of the earlier one come first. -/
theorem numbers_lt (ha : a.InSeconds) (hb : b.InSeconds) (hyear : 0 ≤ a.date.year)
    (h : a.count < b.count) : a.numbers < b.numbers := by
  unfold numbers
  rcases lt_of_count_lt ha hb h with hdays | ⟨hdate, hseconds⟩
  · rcases Date.lt_of_dayNumber_lt hdays with hlt | ⟨hsame, hordinal⟩
    · exact List.cons_lt_cons_iff.mpr (.inl (by omega))
    · have hmonth := Date.monthAndDay_lt hordinal 1 (Date.monthLengths a.date.year)
      rw [hsame]
      refine List.cons_lt_cons_iff.mpr (.inr ⟨rfl, List.cons_lt_cons_iff.mpr ?_⟩)
      unfold Date.month
      rw [← hsame]
      exact hmonth.imp_right fun ⟨hfirst, hday⟩ => ⟨hfirst, List.cons_lt_cons_iff.mpr (.inl hday)⟩
  · rw [hdate]
    have htime := TimeOfDay.lt_of_seconds_lt hseconds
    simp only [List.cons_lt_cons_iff, Nat.lt_irrefl, false_or, true_and]
    exact htime.imp_right fun ⟨hhour, hrest⟩ => ⟨hhour, hrest.imp_right fun ⟨hminute, hsecond⟩ =>
      ⟨hminute, .inl hsecond⟩⟩

end InSeconds

/-! ## Stamps -/

section Stamps

variable {t a b : Timestamp} {stamp first second : String}

/-- A stamp spells the numbers of its time. -/
theorem toList_stamp (h : t.stamp? = some stamp) : stamp.toList = spell stampFields t.numbers := by
  rw [(stamp?_eq_some_iff.mp h).2, String.toList_ofList]

/-- A stamp is plain text, so it has one octet for each character. -/
theorem length_toOctets_stamp (h : t.stamp? = some stamp) : (Text.toOctets stamp).length = 20 := by
  have hmarks : (stampFields.map Prod.snd).all (fun c => c.val ≤ 127) = true := by decide
  have hone : ∀ c ∈ spell stampFields t.numbers, (String.utf8EncodeChar c).length = 1 := by
    intro c hc
    rw [String.length_utf8EncodeChar, Char.utf8Size_eq_one_iff]
    rcases digit_or_mark hc with hdigit | hmark
    · simp only [Char.isDigit, Bool.and_eq_true, decide_eq_true_eq] at hdigit
      exact UInt32.le_trans hdigit.2 (by decide)
    · exact of_decide_eq_true (List.all_eq_true.mp hmarks c hmark)
  rw [Text.toOctets_eq_flatMap, toList_stamp h, List.length_flatMap,
    List.map_congr_left hone, List.map_const', List.sum_replicate, length_spell t.fitting_numbers]
  rfl

/-- A stamp ends with the mark of universal time. -/
theorem getLast?_stamp (h : t.stamp? = some stamp) : stamp.toList.getLast? = some 'Z' := by
  rw [toList_stamp h]
  simp [spell, stampFields, numbers, List.getLast?_append, List.getLast?_cons]

/-- A later time has a greater stamp. -/
theorem toOctets_stamp_lt (ha : a.InSeconds) (hb : b.InSeconds) (hfirst : a.stamp? = some first)
    (hsecond : b.stamp? = some second) (h : a.count < b.count) :
    Text.toOctets first < Text.toOctets second := by
  obtain ⟨hyear, hspelt⟩ := stamp?_eq_some_iff.mp hfirst
  have hnumbers := spell_lt a.fitting_numbers b.fitting_numbers (numbers_lt ha hb hyear h)
  rw [← toList_stamp hfirst, ← toList_stamp hsecond] at hnumbers
  exact Text.toOctets_lt hnumbers

/-- Stamps compare octet by octet like the times that they belong to. -/
theorem toOctets_stamp_lt_iff (ha : a.InSeconds) (hb : b.InSeconds)
    (hfirst : a.stamp? = some first) (hsecond : b.stamp? = some second) :
    Text.toOctets first < Text.toOctets second ↔ a.count < b.count := by
  refine ⟨fun h => ?_, toOctets_stamp_lt ha hb hfirst hsecond⟩
  rcases Int.lt_trichotomy a.count b.count with hlt | heq | hgt
  · exact hlt
  · cases eq_of_count_eq ha hb heq
    cases Option.some.inj (hfirst.symm.trans hsecond)
    exact absurd h (List.lt_irrefl _)
  · exact absurd (toOctets_stamp_lt hb ha hsecond hfirst hgt) (List.lt_asymm h)

/-- Different times have different stamps. -/
theorem stamp_eq_iff (ha : a.InSeconds) (hb : b.InSeconds) (hfirst : a.stamp? = some first)
    (hsecond : b.stamp? = some second) : first = second ↔ a = b := by
  refine ⟨fun h => eq_of_count_eq ha hb ?_, fun h => ?_⟩
  · have hab := (toOctets_stamp_lt_iff ha hb hfirst hsecond).not.mp (h ▸ List.lt_irrefl _)
    have hba := (toOctets_stamp_lt_iff hb ha hsecond hfirst).not.mp (h ▸ List.lt_irrefl _)
    omega
  · cases h
    exact Option.some.inj (hfirst.symm.trans hsecond)

end Stamps

end Timestamp

end ContainerFeed
