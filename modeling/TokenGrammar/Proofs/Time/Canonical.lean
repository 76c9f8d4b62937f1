import TokenGrammar.Proofs.Time.Timestamp

/-!
# Canonical timestamps

The canonical timestamp of an instant in the years 0 to 9999 is read back as that instant with
its fraction cut off, and a later second has a later timestamp in the order of texts.  Outside
of these years the canonical form is no timestamp that is read.
-/

namespace TokenGrammar.Time

open Decimal

namespace Instant

/-- The year can be written with four digits and no sign. -/
def FourDigitYear (i : Instant) : Prop := 0 ≤ i.date.year ∧ i.date.year ≤ 9999

/-- The fraction is below one second, or below two where it belongs to a leap second. -/
def Proper (i : Instant) : Prop :=
  i.nanos < nanosPerSecond ∨ (i.nanos < 2 * nanosPerSecond ∧ i.seconds % 60 = 59)

/-- The instant without its fraction; a leap second stays one. -/
def wholeSecond (i : Instant) : Instant :=
  ⟨i.seconds, i.nanos / nanosPerSecond * nanosPerSecond⟩

variable {i j : Instant}

/-! ## The time of day -/

theorem hour_lt (i : Instant) : i.clock.hour < 24 := by
  change (i.seconds % (86400 : Nat)).toNat / 3600 < 24
  omega

theorem minute_lt (i : Instant) : i.clock.minute < 60 := Nat.mod_lt _ (by decide)

theorem second_lt (i : Instant) : i.clock.second < 60 := Nat.mod_lt _ (by decide)

theorem valid_date (i : Instant) : i.date.Valid := Date.valid_ofDayNumber _

theorem dayNumber_date (i : Instant) : i.date.dayNumber = i.seconds / secondsPerDay + epochDay :=
  Date.dayNumber_ofDayNumber _

theorem seconds_eq (i : Instant) :
    i.seconds = (i.date.dayNumber - epochDay) * secondsPerDay +
      (i.clock.hour * 3600 + i.clock.minute * 60 + i.clock.second) := by
  rw [dayNumber_date]
  change i.seconds = (i.seconds / (86400 : Nat) + epochDay - epochDay) * (86400 : Nat) +
    (((i.seconds % (86400 : Nat)).toNat / 3600 : Nat) * 3600 +
      ((i.seconds % (86400 : Nat)).toNat / 60 % 60 : Nat) * 60 +
      ((i.seconds % (86400 : Nat)).toNat % 60 : Nat))
  omega

theorem second_eq (i : Instant) : (i.clock.second : Int) = i.seconds % 60 := by
  change ((i.seconds % (86400 : Nat)).toNat % 60 : Nat) = i.seconds % 60
  omega

theorem Proper.shownSecond (h : i.Proper) :
    i.clock.shownSecond = i.clock.second ∧ i.nanos / nanosPerSecond = 0 ∨
      i.clock.shownSecond = 60 ∧ i.clock.second = 59 ∧ i.nanos / nanosPerSecond = 1 := by
  have hshown : i.clock.shownSecond = i.clock.second + i.nanos / nanosPerSecond := rfl
  have hsecond := i.second_eq
  unfold Proper nanosPerSecond at h
  unfold nanosPerSecond at hshown ⊢
  omega

theorem year_bounds_iff {first last : Int} (i : Instant) :
    first ≤ i.date.year ∧ i.date.year ≤ last ↔
      (daysBeforeYear first - epochDay) * secondsPerDay ≤ i.seconds ∧
        i.seconds < (daysBeforeYear (last + 1) - epochDay) * secondsPerDay := by
  have hfirst := @le_yearOfDay_iff (i.seconds / secondsPerDay + epochDay) first
  have hlast := @le_yearOfDay_iff (i.seconds / secondsPerDay + epochDay) (last + 1)
  change first ≤ Date.yearOfDay _ ∧ Date.yearOfDay _ ≤ last ↔ _
  unfold secondsPerDay at *
  omega

/-- The years from 0 to 9999 in seconds since 1970. -/
theorem fourDigitYear_iff : i.FourDigitYear ↔ -62167219200 ≤ i.seconds ∧ i.seconds < 253402300800 :=
  year_bounds_iff i

/-! ## Reading the canonical form -/

/-- The canonical form as a text of the grammar. -/
def canonical (i : Instant) (hyear : i.FourDigitYear) (hproper : i.Proper) : Timestamp where
  year := i.date.year.toNat
  month := i.date.month
  day := i.date.day
  mark := 'T'
  hour := i.clock.hour
  minute := i.clock.minute
  second := i.clock.shownSecond
  fraction := []
  zone := .zulu false
  year_lt := by
    unfold FourDigitYear at hyear
    omega
  inMonth := by
    rw [Int.toNat_of_nonneg hyear.1]
    exact i.valid_date.inMonth.1
  mark_mem := mem_separators
  hour_lt := i.hour_lt
  minute_lt := i.minute_lt
  second_le := by
    have hsecond := i.second_lt
    have hshown := hproper.shownSecond
    omega
  isDigit_fraction := by simp

theorem yearText_eq {year : Int} (h : 0 ≤ year ∧ year ≤ 9999) :
    yearText year = zeroPadded 4 year.toNat := by
  have hnatAbs : year.natAbs = year.toNat := by omega
  rw [yearText, if_neg (by omega), if_neg (by omega), hnatAbs, zeroPadded]

theorem twoDigits_eq (n : Nat) : twoDigits n = zeroPadded 2 n := rfl

theorem text_canonical (hyear : i.FourDigitYear) (hproper : i.Proper) :
    (i.canonical hyear hproper).text = i.timestamp := by
  rw [timestamp, dateTimeText, yearText_eq hyear]
  simp [Timestamp.text, canonical, pointed, Zone.text, twoDigits_eq]

theorem instant_canonical (hyear : i.FourDigitYear) (hproper : i.Proper) :
    (i.canonical hyear hproper).instant = i.wholeSecond := by
  have hday : daysBeforeYear i.date.year.toNat +
      Date.ordinalOf i.date.year.toNat i.date.month i.date.day - 1 = i.date.dayNumber := by
    rw [Int.toNat_of_nonneg hyear.1, Date.dayNumber, ← i.valid_date.inMonth.2]
  have hseconds := i.seconds_eq
  have hsecond := i.second_lt
  rcases hproper.shownSecond with ⟨hshown, hwhole⟩ | ⟨hshown, hlast, hwhole⟩
  · simp only [Timestamp.instant, canonical, wholeSecond, hshown, hwhole, hday, Zone.seconds,
      Instant.mk.injEq]
    have hmin : min i.clock.second 59 = i.clock.second := by omega
    rw [hmin, if_neg (by omega)]
    exact ⟨by omega, rfl⟩
  · simp only [Timestamp.instant, canonical, wholeSecond, hshown, hwhole, hday, Zone.seconds,
      Instant.mk.injEq]
    exact ⟨by omega, rfl⟩

theorem ofTimestamp?_timestamp (hyear : i.FourDigitYear) (hproper : i.Proper) :
    ofTimestamp? i.timestamp = some i.wholeSecond := by
  rw [← text_canonical hyear hproper, ofTimestamp?_text, instant_canonical]

/-! ## Order -/

/-- The timestamp as the number that its fourteen digits are read as. -/
def readNumber (i : Instant) : Int :=
  ((i.date.readNumber * 100 + i.clock.hour) * 100 + i.clock.minute) * 100 + i.clock.shownSecond

theorem readNumber_lt (hi : i.Proper) (h : i.seconds < j.seconds) :
    i.readNumber < j.readNumber := by
  have hseconds := i.seconds_eq
  have hseconds' := j.seconds_eq
  have hhour := i.hour_lt
  have hminute := i.minute_lt
  have hminute' := j.minute_lt
  have hsecond := i.second_lt
  have hshown := hi.shownSecond
  have hshown' : j.clock.second ≤ j.clock.shownSecond := Nat.le_add_right ..
  have hsecond' := j.second_lt
  have hhour' := j.hour_lt
  unfold secondsPerDay at hseconds hseconds'
  -- The later second is one of a later day, or of the same day at a later time.
  have hday : i.date.dayNumber ≤ j.date.dayNumber := by omega
  unfold readNumber
  by_cases hsame : i.date.dayNumber = j.date.dayNumber
  · have hdate : i.date = j.date := by
      rw [← i.valid_date.ofDayNumber_eq, hsame, j.valid_date.ofDayNumber_eq]
    rw [hdate]
    omega
  · have hdate : i.date.readNumber < j.date.readNumber := by
      rw [← i.valid_date.ofDayNumber_eq, ← j.valid_date.ofDayNumber_eq]
      exact Date.readNumber_ofDayNumber_lt (by omega)
    omega

end Instant

namespace Timestamp

theorem proper_instant (t : Timestamp) : t.instant.Proper := by
  have hnanos := nanosOf_lt t.isDigit_fraction
  have hzone := t.zone.seconds_emod
  unfold Instant.Proper
  by_cases hleap : t.second = 60
  · right
    refine ⟨?_, ?_⟩
    · simp only [Timestamp.instant, hleap, if_true]
      omega
    · simp only [Timestamp.instant, hleap, secondsPerDay]
      omega
  · left
    simpa only [Timestamp.instant, hleap, if_false] using hnanos

theorem nanos_div_of_lt (t : Timestamp) (h : t.second < 60) :
    t.instant.nanos / nanosPerSecond = 0 := by
  have hnanos : t.instant.nanos = nanosOf t.fraction := if_neg (Nat.ne_of_lt h)
  rw [hnanos]
  exact Nat.div_eq_of_lt (nanosOf_lt t.isDigit_fraction)

/-- The form in universal time with capital letters and without a fraction. -/
structure IsCanonical (t : Timestamp) : Prop where
  mark : t.mark = 'T'
  fraction : t.fraction = []
  zone : t.zone = .zulu false

variable {t u : Timestamp}

theorem IsCanonical.natOfDigits_text (h : t.IsCanonical) :
    natOfDigits t.text = ((((t.year * 100 + t.month) * 100 + t.day) * 100 + t.hour) * 100 +
      t.minute) * 100 + t.second := by
  have hmonth := t.inMonth.month_le
  have hday := t.inMonth.day_le_31
  have hhour := t.hour_lt
  have hminute := t.minute_lt
  have hsecond := t.second_le
  have hyear : (zeroPadded 4 t.year).foldl readDigit 0 = t.year := natOfDigits_zeroPadded 4 t.year
  have hfield {n : Nat} (hlt : n < 100) (start : Nat) :
      (zeroPadded 2 n).foldl readDigit start = start * 100 + n :=
    foldl_readDigit_zeroPadded hlt (by decide) start
  have hmark {c : Char} (hc : isDigit c = false) (start : Nat) : readDigit start c = start :=
    readDigit_of_not_isDigit start hc
  change t.text.foldl readDigit 0 = _
  rw [Timestamp.text, h.mark, h.fraction, h.zone, List.foldl_append, hyear, List.foldl_cons,
    hmark rfl, List.foldl_append, hfield (by omega), List.foldl_cons, hmark rfl,
    List.foldl_append, hfield (by omega), List.foldl_cons, hmark rfl, List.foldl_append,
    hfield (by omega), List.foldl_cons, hmark rfl, List.foldl_append, hfield (by omega),
    List.foldl_cons, hmark rfl, List.foldl_append, hfield (by omega)]
  rfl

theorem IsCanonical.sameShape_text (h : t.IsCanonical) (h' : u.IsCanonical) :
    SameShape t.text u.text := by
  have hmonth := t.inMonth.month_le
  have hmonth' := u.inMonth.month_le
  have hday := t.inMonth.day_le_31
  have hday' := u.inMonth.day_le_31
  have hfield {m n : Nat} (hm : m < 100) (hn : n < 100) :
      SameShape (zeroPadded 2 m) (zeroPadded 2 n) :=
    sameShape_zeroPadded (by decide) hm hn
  rw [Timestamp.text, Timestamp.text, h.mark, h.fraction, h.zone, h'.mark, h'.fraction, h'.zone]
  apply (sameShape_zeroPadded (by decide) t.year_lt u.year_lt).append
  apply SameShape.cons
  apply (hfield (by omega) (by omega)).append
  apply SameShape.cons
  apply (hfield (by omega) (by omega)).append
  apply SameShape.cons
  apply (hfield (t.hour_lt.trans (by decide)) (u.hour_lt.trans (by decide))).append
  apply SameShape.cons
  apply (hfield (t.minute_lt.trans (by decide)) (u.minute_lt.trans (by decide))).append
  apply SameShape.cons
  apply (hfield (t.second_le.trans_lt (by decide)) (u.second_le.trans_lt (by decide))).append
  exact SameShape.cons _ List.Forall₂.nil

end Timestamp

namespace Instant

variable {i j : Instant}

theorem isCanonical_canonical (hyear : i.FourDigitYear) (hproper : i.Proper) :
    (i.canonical hyear hproper).IsCanonical := ⟨rfl, rfl, rfl⟩

theorem natOfDigits_timestamp (hyear : i.FourDigitYear) (hproper : i.Proper) :
    (natOfDigits i.timestamp : Int) = i.readNumber := by
  rw [← text_canonical hyear hproper, (isCanonical_canonical hyear hproper).natOfDigits_text]
  push_cast
  rw [show ((i.canonical hyear hproper).year : Int) = i.date.year from
    Int.toNat_of_nonneg hyear.1]
  rfl

/-- A later second has a later timestamp. -/
theorem timestamp_lt (hi : i.FourDigitYear) (hi' : i.Proper) (hj : j.FourDigitYear)
    (hj' : j.Proper) (h : i.seconds < j.seconds) : i.timestamp < j.timestamp := by
  have hnumber := readNumber_lt hi' h
  rw [← natOfDigits_timestamp hi hi', ← natOfDigits_timestamp hj hj'] at hnumber
  have hshape := (isCanonical_canonical hi hi').sameShape_text (isCanonical_canonical hj hj')
  rw [text_canonical, text_canonical] at hshape
  exact hshape.lt_of_natOfDigits_lt (by omega)

/-! ## Characters -/

/-- The characters of canonical timestamps other than digits. -/
def timestampMarks : List Char := ['+', '-', 'T', ':', 'Z']

theorem mem_yearText {year : Int} {c : Char} (h : c ∈ yearText year) :
    isDigit c = true ∨ c ∈ timestampMarks := by
  have hdigits (h : c ∈ zeroPadded 4 year.natAbs) : isDigit c = true ∨ c ∈ timestampMarks :=
    .inl (isDigit_of_mem_zeroPadded h)
  have hmark {mark : Char} (hmark : mark ∈ timestampMarks)
      (h : c ∈ mark :: zeroPadded 4 year.natAbs) : isDigit c = true ∨ c ∈ timestampMarks := by
    rcases List.mem_cons.1 h with rfl | h
    · exact .inr hmark
    · exact hdigits h
  unfold yearText at h
  dsimp only at h
  split at h
  · exact hmark (by decide) h
  · split at h
    · exact hmark (by decide) h
    · exact hdigits h

theorem mem_timestamp {c : Char} (h : c ∈ i.timestamp) :
    isDigit c = true ∨ c ∈ timestampMarks := by
  have hfield (n : Nat) (h : c ∈ twoDigits n) : isDigit c = true ∨ c ∈ timestampMarks :=
    .inl (isDigit_of_mem_zeroPadded h)
  have hmark {mark : Char} (hmark : mark ∈ timestampMarks) (h : c = mark) :
      isDigit c = true ∨ c ∈ timestampMarks := .inr (h ▸ hmark)
  simp only [timestamp, dateTimeText, List.mem_append, List.mem_cons, List.not_mem_nil,
    or_false] at h
  rcases h with ((((((h | h | h) | h | h) | h | h) | h | h) | h | h)) | h
  · exact mem_yearText h
  · exact hmark (by decide) h
  · exact hfield _ h
  · exact hmark (by decide) h
  · exact hfield _ h
  · exact hmark (by decide) h
  · exact hfield _ h
  · exact hmark (by decide) h
  · exact hfield _ h
  · exact hmark (by decide) h
  · exact hfield _ h
  · exact hmark (by decide) h

/-! ## What the canonical form leaves out -/

/-- Only whole seconds count. -/
theorem timestamp_congr (hseconds : i.seconds = j.seconds)
    (hnanos : i.nanos / nanosPerSecond = j.nanos / nanosPerSecond) : i.timestamp = j.timestamp := by
  have hshown : i.clock.shownSecond = j.clock.shownSecond := by
    have hi : i.clock.shownSecond =
        (i.seconds % secondsPerDay).toNat % 60 + i.nanos / nanosPerSecond := rfl
    have hj : j.clock.shownSecond =
        (j.seconds % secondsPerDay).toNat % 60 + j.nanos / nanosPerSecond := rfl
    rw [hi, hj, hseconds, hnanos]
  have hdate : i.date = j.date := by rw [date, date, hseconds]
  have hhour : i.clock.hour = j.clock.hour := by rw [clock, clock, hseconds]
  have hminute : i.clock.minute = j.clock.minute := by rw [clock, clock, hseconds]
  rw [timestamp, timestamp, dateTimeText, dateTimeText, hdate, hhour, hminute, hshown]

theorem timestamp_wholeSecond (i : Instant) : i.wholeSecond.timestamp = i.timestamp :=
  timestamp_congr rfl (Nat.mul_div_cancel _ (by decide))

/-! ## Years without a canonical timestamp -/

/-- The text of other years begins with a sign. -/
theorem yearText_of_signed {year : Int} (h : ¬ (0 ≤ year ∧ year ≤ 9999)) :
    ∃ sign, (sign = '-' ∨ sign = '+') ∧ yearText year = sign :: zeroPadded 4 year.natAbs := by
  unfold yearText
  by_cases hneg : year < 0
  · exact ⟨'-', .inl rfl, if_pos hneg⟩
  · refine ⟨'+', .inr rfl, ?_⟩
    dsimp only
    rw [if_neg hneg, if_pos (by omega), zeroPadded]

theorem ofTimestamp?_of_signed {sign : Char} {cs : List Char} (h : sign = '-' ∨ sign = '+') :
    ofTimestamp? (sign :: cs) = none := by
  rw [Option.eq_none_iff_forall_ne_some]
  intro i hread
  obtain ⟨t, htext, -⟩ := exists_timestamp_of_ofTimestamp? hread
  -- The texts of the grammar begin with a digit.
  obtain ⟨d, ds, hyear, hdigit⟩ := exists_cons_zeroPadded (show 0 < 4 by decide) t.year_lt
  rw [Timestamp.text, hyear] at htext
  obtain rfl : d = sign := (List.cons.inj htext).1
  rcases h with rfl | rfl <;> cases hdigit

end Instant

end TokenGrammar.Time
