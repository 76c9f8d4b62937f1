import Mathlib.Tactic.NormNum
import TokenGrammar.Time.Calendar

/-!
# Days and dates

Years, the months of a year and the days of a month follow each other without gaps, so that
day counts and dates determine each other, and a later day has a later date.
-/

namespace TokenGrammar.Time

/-! ## Years -/

theorem daysBeforeYear_succ (year : Int) :
    daysBeforeYear (year + 1) = daysBeforeYear year + daysInYear year := by
  unfold daysBeforeYear daysInYear isLeapYear
  by_cases h4 : year % 4 = 0 <;> by_cases h100 : year % 100 = 0 <;>
    by_cases h400 : year % 400 = 0 <;> simp [h4, h100, h400] <;> omega

theorem daysBeforeYear_mono {a b : Int} (h : a ≤ b) : daysBeforeYear a ≤ daysBeforeYear b := by
  induction b, h using Int.leInduction with
  | base => exact Int.le_refl _
  | succ b _ ih =>
      have hstep := daysBeforeYear_succ b
      omega

/-- A day lies in one year only. -/
theorem year_le_of_le {a b day : Int} (ha : daysBeforeYear a ≤ day)
    (hb : day < daysBeforeYear (b + 1)) : a ≤ b := by
  by_contra hlt
  have hmono := daysBeforeYear_mono (show b + 1 ≤ a by omega)
  omega

/-- The guess by the mean length of a year is wrong by one year at most. -/
theorem daysBeforeYear_guess (day : Int) :
    daysBeforeYear (day * 400 / 146097) ≤ day ∧
      day < daysBeforeYear (day * 400 / 146097 + 3) := by
  unfold daysBeforeYear
  omega

theorem daysBeforeYear_yearOfDay (day : Int) :
    daysBeforeYear (Date.yearOfDay day) ≤ day ∧
      day < daysBeforeYear (Date.yearOfDay day + 1) := by
  have hguess := daysBeforeYear_guess day
  unfold Date.yearOfDay
  dsimp only
  split
  next hbefore =>
    rw [show day * 400 / 146097 + 1 - 1 = day * 400 / 146097 by omega]
    exact ⟨hguess.1, hbefore⟩
  next hfrom =>
    split
    next hbehind =>
      refine ⟨hbehind, ?_⟩
      rw [show day * 400 / 146097 + 1 + 1 + 1 = day * 400 / 146097 + 3 by omega]
      exact hguess.2
    next hwithin => exact ⟨by omega, by omega⟩

theorem yearOfDay_eq_iff {day year : Int} :
    Date.yearOfDay day = year ↔ daysBeforeYear year ≤ day ∧ day < daysBeforeYear (year + 1) := by
  have hyear := daysBeforeYear_yearOfDay day
  constructor
  · rintro rfl
    exact hyear
  · rintro ⟨hfrom, hto⟩
    exact Int.le_antisymm (year_le_of_le hyear.1 hto) (year_le_of_le hfrom hyear.2)

theorem le_yearOfDay_iff {day year : Int} :
    year ≤ Date.yearOfDay day ↔ daysBeforeYear year ≤ day := by
  have hyear := daysBeforeYear_yearOfDay day
  exact ⟨fun h => (daysBeforeYear_mono h).trans hyear.1, fun h => year_le_of_le h hyear.2⟩

namespace Date

/-! ## Day counts -/

/-- The number of the day is one of its year. -/
def Valid (date : Date) : Prop := 1 ≤ date.ordinal ∧ date.ordinal ≤ daysInYear date.year

theorem valid_ofDayNumber (day : Int) : (ofDayNumber day).Valid := by
  have hyear := daysBeforeYear_yearOfDay day
  rw [daysBeforeYear_succ] at hyear
  change 1 ≤ (day - daysBeforeYear (yearOfDay day)).toNat + 1 ∧
    (day - daysBeforeYear (yearOfDay day)).toNat + 1 ≤ daysInYear (yearOfDay day)
  omega

theorem dayNumber_ofDayNumber (day : Int) : (ofDayNumber day).dayNumber = day := by
  have hyear := daysBeforeYear_yearOfDay day
  change daysBeforeYear (yearOfDay day) +
    (((day - daysBeforeYear (yearOfDay day)).toNat + 1 : Nat) : Int) - 1 = day
  omega

theorem Valid.year_eq {date : Date} (h : date.Valid) : yearOfDay date.dayNumber = date.year := by
  rw [yearOfDay_eq_iff, daysBeforeYear_succ, dayNumber]
  obtain ⟨hfirst, hlast⟩ := h
  omega

theorem Valid.ofDayNumber_eq {date : Date} (h : date.Valid) :
    ofDayNumber date.dayNumber = date := by
  have hyear := h.year_eq
  have hordinal : (date.dayNumber - daysBeforeYear date.year).toNat + 1 = date.ordinal := by
    have hfirst := h.1
    rw [dayNumber]
    omega
  simp only [ofDayNumber, hyear, hordinal]

/-! ## Months -/

/-- Passing over the months before one leaves the day in that month. -/
theorem monthDay_go {lengths : List Nat} {month k day length : Nat}
    (hlength : lengths[k]? = some length) (hday : day < length) :
    monthDay.go month ((lengths.take k).sum + day) lengths = (month + k, day + 1) := by
  induction lengths generalizing month k with
  | nil => simp at hlength
  | cons first lengths ih =>
      cases k with
      | zero =>
          obtain rfl : first = length := by simpa using hlength
          simp [monthDay.go, hday]
      | succ k =>
          have hpast : ¬ ((first :: lengths).take (k + 1)).sum + day < first := by
            simp
            omega
          have hrest : ((first :: lengths).take (k + 1)).sum + day - first =
              (lengths.take k).sum + day := by
            simp
            omega
          rw [monthDay.go, if_neg hpast, hrest, ih (by simpa using hlength)]
          congr 1
          omega

/-- Every day of the year is a day of some month. -/
theorem exists_month {lengths : List Nat} {rest : Nat} (h : rest < lengths.sum) :
    ∃ k day length, lengths[k]? = some length ∧ day < length ∧
      rest = (lengths.take k).sum + day := by
  induction lengths generalizing rest with
  | nil => simp at h
  | cons first lengths ih =>
      by_cases hfirst : rest < first
      · exact ⟨0, rest, first, rfl, hfirst, by simp⟩
      · have hwithin : rest - first < lengths.sum := by
          simp at h
          omega
        obtain ⟨k, day, length, hlength, hday, hrest⟩ := ih hwithin
        refine ⟨k + 1, day, length, hlength, hday, ?_⟩
        simp
        omega

theorem length_monthLengths (year : Int) : (monthLengths year).length = 12 := rfl

theorem sum_monthLengths (year : Int) : (monthLengths year).sum = daysInYear year := by
  unfold monthLengths daysInYear
  split <;> rfl

theorem monthLength_le {year : Int} {length : Nat} (h : length ∈ monthLengths year) :
    length ≤ 31 := by
  unfold monthLengths at h
  split at h <;> revert length <;> decide

/-- A month of a year, with its length, and a day in it. -/
structure InMonth (year : Int) (month day : Nat) : Prop where
  month_pos : 1 ≤ month
  day_pos : 1 ≤ day
  day_le : ∃ length, (monthLengths year)[month - 1]? = some length ∧ day ≤ length

/-- The day of the year that is the given one of a month. -/
def ordinalOf (year : Int) (month day : Nat) : Nat :=
  ((monthLengths year).take (month - 1)).sum + day

variable {year : Int} {month day : Nat} {date : Date}

theorem InMonth.month_le (h : InMonth year month day) : month ≤ 12 := by
  obtain ⟨length, hlength, -⟩ := h.day_le
  have hlt := (List.getElem?_eq_some_iff.1 hlength).1
  rw [length_monthLengths] at hlt
  omega

theorem InMonth.day_le_31 (h : InMonth year month day) : day ≤ 31 := by
  obtain ⟨length, hlength, hday⟩ := h.day_le
  exact hday.trans (monthLength_le (List.mem_of_getElem? hlength))

theorem Valid.inMonth (h : date.Valid) :
    InMonth date.year date.month date.day ∧
      date.ordinal = ordinalOf date.year date.month date.day := by
  obtain ⟨hfirst, hlast⟩ := h
  have hwithin : date.ordinal - 1 < (monthLengths date.year).sum := by
    rw [sum_monthLengths]
    omega
  obtain ⟨k, day, length, hlength, hday, hrest⟩ := exists_month hwithin
  have hmonthDay : date.monthDay = (1 + k, day + 1) := by
    rw [monthDay, hrest]
    exact monthDay_go hlength hday
  have hmonth : date.month = 1 + k := congrArg Prod.fst hmonthDay
  have hdayOf : date.day = day + 1 := congrArg Prod.snd hmonthDay
  rw [hmonth, hdayOf]
  refine ⟨⟨by omega, by omega, length, ?_, hday⟩, ?_⟩
  · rwa [Nat.add_sub_cancel_left]
  · rw [ordinalOf, Nat.add_sub_cancel_left]
    omega

theorem ofMonthDay?_of_inMonth (hyear : isYear year = true) (h : InMonth year month day) :
    ofMonthDay? year month day = some ⟨year, ordinalOf year month day⟩ := by
  obtain ⟨length, hlength, hday⟩ := h.day_le
  have hsum : ((monthLengths year).take (month - 1)).foldl (· + ·) day =
      ordinalOf year month day := by
    have hstart (lengths : List Nat) :
        lengths.foldl (· + ·) (day + 0) = day + lengths.foldl (· + ·) 0 := List.foldl_assoc
    rw [ordinalOf, Nat.add_comm, List.sum_eq_foldl]
    exact hstart _
  simp [ofMonthDay?, hlength, hyear, h.month_pos, h.day_pos, hday, hsum]

theorem inMonth_of_ofMonthDay? (h : ofMonthDay? year month day = some date) :
    InMonth year month day := by
  unfold ofMonthDay? at h
  cases hlength : (monthLengths year)[month - 1]? with
  | none => simp [hlength] at h
  | some length =>
      have hbounds : ((isYear year = true ∧ 1 ≤ month) ∧ 1 ≤ day) ∧ day ≤ length := by
        by_contra hout
        simp [hlength] at h
        tauto
      exact ⟨hbounds.1.1.2, hbounds.1.2, length, hlength, hbounds.2⟩

/-! ## Order -/

/-- The date as the number that its eight digits are read as. -/
def readNumber (date : Date) : Int := (date.year * 100 + date.month) * 100 + date.day

theorem sum_take_mono (lengths : List Nat) {k l : Nat} (h : k ≤ l) :
    (lengths.take k).sum ≤ (lengths.take l).sum := by
  rw [← List.take_append_drop k (lengths.take l), List.take_take, Nat.min_eq_left h,
    List.sum_append]
  exact Nat.le_add_right _ _

/-- The days of a later month come later in the year. -/
theorem ordinalOf_lt {month' day' : Nat} (h : InMonth year month day)
    (h' : InMonth year month' day') (hlt : month < month') :
    ordinalOf year month day < ordinalOf year month' day' := by
  obtain ⟨length, hlength, hday⟩ := h.day_le
  have hpos := h'.day_pos
  have hmonth := h.month_pos
  have hmono := sum_take_mono (monthLengths year) (show month ≤ month' - 1 by omega)
  have hsucc : ((monthLengths year).take month).sum =
      ((monthLengths year).take (month - 1)).sum + length := by
    obtain ⟨k, rfl⟩ := Nat.exists_eq_add_of_le' hmonth
    rw [List.take_add_one, show k = k + 1 - 1 by omega, hlength]
    simp
  unfold ordinalOf
  omega

theorem readNumber_lt_of_ordinal_lt {a b : Date} (ha : a.Valid) (hb : b.Valid)
    (hyear : a.year = b.year) (h : a.ordinal < b.ordinal) : a.readNumber < b.readNumber := by
  obtain ⟨hina, hordinala⟩ := ha.inMonth
  obtain ⟨hinb, hordinalb⟩ := hb.inMonth
  have hdaya := hina.day_le_31
  rw [hyear] at hina hordinala
  -- All days of an earlier month have smaller numbers in the year.
  have hle : a.month ≤ b.month := by
    by_contra hgt
    have hlater := ordinalOf_lt hinb hina (by omega)
    omega
  have hday : a.month = b.month → a.day < b.day := by
    intro heq
    rw [heq] at hordinala
    unfold ordinalOf at hordinala hordinalb
    omega
  unfold readNumber
  omega

theorem readNumber_ofDayNumber_lt {a b : Int} (h : a < b) :
    (ofDayNumber a).readNumber < (ofDayNumber b).readNumber := by
  have hyeara := daysBeforeYear_yearOfDay a
  have hyearb := daysBeforeYear_yearOfDay b
  have hle : (ofDayNumber a).year ≤ (ofDayNumber b).year :=
    year_le_of_le hyeara.1 (h.trans hyearb.2)
  have hvalida := valid_ofDayNumber a
  have hvalidb := valid_ofDayNumber b
  by_cases hyear : (ofDayNumber a).year = (ofDayNumber b).year
  · apply readNumber_lt_of_ordinal_lt hvalida hvalidb hyear
    have hdaya := dayNumber_ofDayNumber a
    have hdayb := dayNumber_ofDayNumber b
    unfold dayNumber at hdaya hdayb
    rw [hyear] at hdaya
    omega
  · have hmonth := hvalida.inMonth.1.month_le
    have hday := hvalida.inMonth.1.day_le_31
    unfold readNumber
    omega

end Date

end TokenGrammar.Time
