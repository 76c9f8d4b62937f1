import Mathlib.Data.List.TakeWhile
import TokenGrammar.Proofs.Numeric.Padded
import TokenGrammar.Proofs.Time.Calendar
import TokenGrammar.Time.Timestamp

/-!
# Written timestamps

`Timestamp` is the grammar of the timestamps that are read, with the instant that each stands
for.  Reading accepts exactly the texts of that grammar and answers with their instants.
-/

namespace TokenGrammar.Time

open Decimal

variable {cs rest : List Char} {n : Nat}

/-! ## Pieces -/

theorem readExactly_eq_some_iff {width : Nat} (hwidth : 0 < width) :
    readExactly width cs = some (n, rest) ↔
      n < 10 ^ width ∧ cs = zeroPadded width n ++ rest := by
  unfold readExactly
  constructor
  · intro h
    by_cases htake : (cs.take width).length = width ∧ (cs.take width).all isDigit = true
    · obtain ⟨hlength, hdigits⟩ := htake
      simp only [hlength, hdigits, and_self, if_true, Option.some.injEq, Prod.mk.injEq] at h
      obtain ⟨rfl, rfl⟩ := h
      have hall := List.all_eq_true.1 hdigits
      have hvalue := natOfDigits_lt hall
      have htext := eq_zeroPadded hall (hlength.symm ▸ hwidth)
      rw [hlength] at hvalue htext
      exact ⟨hvalue, by rw [← htext, List.take_append_drop]⟩
    · simp only [htake, if_false] at h
      cases h
  · rintro ⟨hlt, rfl⟩
    have hlength := length_zeroPadded hlt hwidth
    have hdigits : (zeroPadded width n).all isDigit = true :=
      List.all_eq_true.2 fun _ => isDigit_of_mem_zeroPadded
    simp only [List.take_left' hlength, List.drop_left' hlength, hlength, hdigits, and_self,
      if_true, natOfDigits_zeroPadded]

theorem expect_eq_some_iff {c : Char} : expect c cs = some rest ↔ cs = c :: rest := by
  cases cs with
  | nil => simp [expect]
  | cons d cs =>
      by_cases h : d = c
      · simp [expect, h]
      · simp [expect, h]

namespace Instant

/-- The characters that may stand between date and time. -/
def separators : List Char := ['T', 't', ' ']

theorem mem_separators : 'T' ∈ separators := by decide

theorem expectSeparator_eq_some_iff :
    expectSeparator cs = some rest ↔ ∃ mark ∈ separators, cs = mark :: rest := by
  unfold expectSeparator separators
  split
  all_goals simp_all

end Instant

/-! ## Fractions -/

/-- The nanoseconds that the digits of a fraction stand for. -/
def nanosOf (ds : List Char) : Nat :=
  natOfDigits (ds.take 9) * Nat.pow 10 (9 - (ds.take 9).length)

theorem nanosOf_lt {ds : List Char} (h : ∀ c ∈ ds, isDigit c = true) :
    nanosOf ds < nanosPerSecond := by
  have hshown : natOfDigits (ds.take 9) < 10 ^ (ds.take 9).length :=
    natOfDigits_lt fun c hc => h c (List.mem_of_mem_take hc)
  have hlength : (ds.take 9).length ≤ 9 := by
    rw [List.length_take]
    exact Nat.min_le_left ..
  calc natOfDigits (ds.take 9) * 10 ^ (9 - (ds.take 9).length)
      < 10 ^ (ds.take 9).length * 10 ^ (9 - (ds.take 9).length) :=
        Nat.mul_lt_mul_of_pos_right hshown (Nat.pow_pos (by decide))
    _ = nanosPerSecond := by rw [← Nat.pow_add, Nat.add_sub_cancel' hlength]; rfl

/-- The fraction of a second behind a point, and none where there is no point. -/
def readPoint : List Char → Option (Nat × List Char)
  | '.' :: rest => readFraction rest
  | rest => some (0, rest)

/-- What follows goes on from either case. -/
theorem bind_readPoint {α : Type} (next : Nat × List Char → Option α) (cs : List Char) :
    (match cs with
      | '.' :: rest => (readFraction rest).bind next
      | rest => (some (0, rest)).bind next) = (readPoint cs).bind next := by
  unfold readPoint
  split <;> rfl

/-- A text that a fraction ends at. -/
def EndsFraction (rest : List Char) : Prop := ∀ c ∈ rest.head?, isDigit c = false ∧ c ≠ '.'

theorem EndsFraction.takeWhile_append {ds : List Char} (h : EndsFraction rest)
    (hds : ∀ c ∈ ds, isDigit c = true) :
    (ds ++ rest).takeWhile isDigit = ds ∧ (ds ++ rest).dropWhile isDigit = rest := by
  cases rest with
  | nil => simp [List.takeWhile_eq_self_iff.2 hds, List.dropWhile_eq_nil_iff.2 hds]
  | cons c rest =>
      have hc : isDigit c = false := (h c rfl).1
      rw [List.takeWhile_append_of_pos hds, List.dropWhile_append_of_pos hds]
      simp [hc]

theorem readPoint_pointed {ds : List Char} (hds : ∀ c ∈ ds, isDigit c = true)
    (h : EndsFraction rest) : readPoint (pointed ds ++ rest) = some (nanosOf ds, rest) := by
  by_cases hnil : ds = []
  · subst hnil
    have hpoint : ∀ more, rest ≠ '.' :: more := by
      rintro more rfl
      exact (h '.' rfl).2 rfl
    change readPoint rest = some (0, rest)
    unfold readPoint
    split
    next more => exact absurd rfl (hpoint more)
    next => rfl
  · obtain ⟨htake, hdrop⟩ := h.takeWhile_append hds
    rw [pointed, if_neg hnil]
    change readFraction (ds ++ rest) = _
    simp only [readFraction, htake, hdrop, List.isEmpty_iff, hnil, if_false]
    rfl

theorem exists_pointed_of_readPoint (h : readPoint cs = some (n, rest)) :
    ∃ ds, (∀ c ∈ ds, isDigit c = true) ∧ cs = pointed ds ++ rest ∧ n = nanosOf ds := by
  unfold readPoint at h
  split at h
  next more =>
    by_cases hnil : more.takeWhile isDigit = []
    · simp [readFraction, hnil] at h
    · simp only [readFraction, List.isEmpty_iff, hnil, if_false, Option.some.injEq,
        Prod.mk.injEq] at h
      obtain ⟨rfl, rfl⟩ := h
      refine ⟨more.takeWhile isDigit, fun c hc => List.mem_takeWhile_imp hc, ?_, rfl⟩
      rw [pointed, if_neg hnil, List.cons_append, List.takeWhile_append_dropWhile]
  next =>
    obtain ⟨rfl, rfl⟩ : 0 = n ∧ cs = rest := by simpa using h
    exact ⟨[], by simp, rfl, rfl⟩

/-! ## Offsets -/

/-- The offset at the end of a timestamp: the letter Z for none, or a sign with hours and
minutes.  The sign for west may be that of typesetters. -/
inductive Zone where
  | zulu (small : Bool)
  | offset (west typeset : Bool) (hours minutes : Nat) (hours_lt : hours < 24)
      (minutes_lt : minutes < 60)

namespace Zone

def sign (west typeset : Bool) : Char :=
  if west then if typeset then minusSign else '-' else '+'

def text : Zone → List Char
  | zulu small => [if small then 'z' else 'Z']
  | offset west typeset hours minutes _ _ =>
    sign west typeset :: (zeroPadded 2 hours ++ ':' :: zeroPadded 2 minutes)

/-- The seconds to the east. -/
def seconds : Zone → Int
  | zulu _ => 0
  | offset west _ hours minutes _ _ => offsetSeconds west hours minutes

theorem endsFraction_text (zone : Zone) : EndsFraction zone.text := by
  cases zone with
  | zulu small =>
      intro c hc
      cases small
      · obtain rfl : 'Z' = c := by simpa [text] using hc
        decide
      · obtain rfl : 'z' = c := by simpa [text] using hc
        decide
  | offset west typeset hours minutes _ _ =>
      intro c hc
      obtain rfl : sign west typeset = c := by simpa [text] using hc
      cases west <;> cases typeset <;> decide

/-- An offset is a number of whole minutes. -/
theorem seconds_emod (zone : Zone) : zone.seconds % 60 = 0 := by
  cases zone with
  | zulu small => rfl
  | offset west typeset hours minutes _ _ => cases west <;> simp [seconds, offsetSeconds] <;> omega

end Zone

theorem readWest_eq_some_iff {west : Bool} :
    readWest cs = some (west, rest) ↔ ∃ typeset, cs = Zone.sign west typeset :: rest := by
  cases cs with
  | nil => simp [readWest]
  | cons c cs =>
      unfold readWest Zone.sign
      by_cases hplus : c = '+'
      · subst hplus
        cases west <;> simp [minusSign]
      · by_cases hminus : c = '-' ∨ c = minusSign
        · cases west <;> simp [hplus, hminus]
        · rw [not_or] at hminus
          cases west <;> simp [hplus, hminus]

namespace Instant

theorem readOffset_text (zone : Zone) : readOffset zone.text = some zone.seconds := by
  cases zone with
  | zulu small => cases small <;> rfl
  | offset west typeset hours minutes hhours hminutes =>
      have hsign : readWest (Zone.text (.offset west typeset hours minutes hhours hminutes)) =
          some (west, zeroPadded 2 hours ++ ':' :: zeroPadded 2 minutes) :=
        readWest_eq_some_iff.2 ⟨typeset, rfl⟩
      have hhour : readExactly 2 (zeroPadded 2 hours ++ ':' :: zeroPadded 2 minutes) =
          some (hours, ':' :: zeroPadded 2 minutes) :=
        (readExactly_eq_some_iff (by decide)).2 ⟨by omega, rfl⟩
      have hminute : readExactly 2 (zeroPadded 2 minutes) = some (minutes, []) :=
        (readExactly_eq_some_iff (by decide)).2 ⟨by omega, (List.append_nil _).symm⟩
      unfold readOffset
      split
      next h => cases west <;> cases typeset <;> simp [Zone.text, Zone.sign] at h
      next h => cases west <;> cases typeset <;> simp [Zone.text, Zone.sign] at h
      next =>
        rw [hsign]
        simp [hhour, expect, hminute, hhours, hminutes, Zone.seconds]

theorem exists_zone_of_readOffset {seconds : Int} (h : readOffset cs = some seconds) :
    ∃ zone : Zone, zone.text = cs ∧ zone.seconds = seconds := by
  unfold readOffset at h
  split at h
  next => exact ⟨.zulu false, rfl, Option.some.inj h⟩
  next => exact ⟨.zulu true, rfl, Option.some.inj h⟩
  next =>
    simp only [Option.bind_eq_bind, Option.bind_eq_some_iff, Prod.exists] at h
    obtain ⟨west, cs₁, hsign, hours, cs₂, hhour, cs₃, hcolon, minutes, cs₄, hminute, h⟩ := h
    obtain ⟨typeset, rfl⟩ := readWest_eq_some_iff.1 hsign
    obtain ⟨-, rfl⟩ := (readExactly_eq_some_iff (by decide)).1 hhour
    obtain rfl := expect_eq_some_iff.1 hcolon
    obtain ⟨-, rfl⟩ := (readExactly_eq_some_iff (by decide)).1 hminute
    by_cases hfits : cs₄.isEmpty = true ∧ hours < 24 ∧ minutes < 60
    · obtain ⟨hend, hhours, hminutes⟩ := hfits
      obtain rfl := List.isEmpty_iff.1 hend
      simp only [hhours, hminutes, List.isEmpty_nil, and_self, if_true, Option.some.injEq] at h
      refine ⟨.offset west typeset hours minutes hhours hminutes, ?_, h⟩
      rw [Zone.text, List.append_nil]
    · rw [if_neg hfits] at h
      cases h

end Instant

/-! ## Timestamps -/

/-- A timestamp as it is written: date and time of day, a fraction of the second and an offset.
The second 60 is a leap second. -/
structure Timestamp where
  year : Nat
  month : Nat
  day : Nat
  mark : Char
  hour : Nat
  minute : Nat
  second : Nat
  /-- The digits behind the point, none if there is no point. -/
  fraction : List Char
  zone : Zone
  year_lt : year < 10000
  inMonth : Date.InMonth year month day
  mark_mem : mark ∈ Instant.separators
  hour_lt : hour < 24
  minute_lt : minute < 60
  second_le : second ≤ 60
  isDigit_fraction : ∀ c ∈ fraction, isDigit c = true

namespace Timestamp

def text (t : Timestamp) : List Char :=
  zeroPadded 4 t.year ++ '-' :: (zeroPadded 2 t.month ++ '-' :: (zeroPadded 2 t.day ++
    t.mark :: (zeroPadded 2 t.hour ++ ':' :: (zeroPadded 2 t.minute ++
      ':' :: (zeroPadded 2 t.second ++ (pointed t.fraction ++ t.zone.text))))))

/-- The day and the time of day are taken apart from the offset.  A leap second is the second
59 with a fraction of at least one second. -/
def instant (t : Timestamp) : Instant where
  seconds :=
    (daysBeforeYear t.year + Date.ordinalOf t.year t.month t.day - 1 - epochDay) * secondsPerDay +
      (t.hour * 3600 + t.minute * 60 + (min t.second 59 : Nat)) - t.zone.seconds
  nanos := if t.second = 60 then nanosPerSecond + nanosOf t.fraction else nanosOf t.fraction

end Timestamp

namespace Instant

theorem clockOf?_eq_some_iff {hour minute second nanos : Nat} {clock : Clock} :
    clockOf? hour minute second nanos = some clock ↔
      hour < 24 ∧ minute < 60 ∧ second ≤ 60 ∧
        clock = ⟨hour, minute, min second 59,
          if second = 60 then nanosPerSecond + nanos else nanos⟩ := by
  unfold clockOf?
  by_cases hout : 24 ≤ hour ∨ 60 ≤ minute ∨ 61 ≤ second
  · rw [if_pos hout]
    constructor
    · intro h
      cases h
    · intro h
      omega
  · have hin : hour < 24 ∧ minute < 60 ∧ second ≤ 60 := by omega
    rw [if_neg hout]
    by_cases hleap : second = 60
    · simp [hleap, hin, eq_comm]
    · have hmin : min second 59 = second := by omega
      simp [hleap, hin, hmin, eq_comm]

theorem isYear_of_lt {year : Nat} (h : year < 10000) : isYear year = true := by
  have hbounds : firstYear ≤ (year : Int) ∧ (year : Int) ≤ lastYear := by
    unfold firstYear lastYear
    omega
  simp [isYear, hbounds]

theorem ofTimestamp?_text (t : Timestamp) : ofTimestamp? t.text = some t.instant := by
  have hfield {n : Nat} (h : n < 100) (rest : List Char) :
      readExactly 2 (zeroPadded 2 n ++ rest) = some (n, rest) :=
    (readExactly_eq_some_iff (by decide)).2 ⟨h, rfl⟩
  have hyear (rest : List Char) :
      readExactly 4 (zeroPadded 4 t.year ++ rest) = some (t.year, rest) :=
    (readExactly_eq_some_iff (by decide)).2 ⟨t.year_lt, rfl⟩
  have hexpect (c : Char) (rest : List Char) : expect c (c :: rest) = some rest :=
    expect_eq_some_iff.2 rfl
  have hmark (rest : List Char) : expectSeparator (t.mark :: rest) = some rest :=
    expectSeparator_eq_some_iff.2 ⟨t.mark, t.mark_mem, rfl⟩
  have hmonth : t.month < 100 := by have := t.inMonth.month_le; omega
  have hday : t.day < 100 := by have := t.inMonth.day_le_31; omega
  have hhour : t.hour < 100 := by have := t.hour_lt; omega
  have hminute : t.minute < 100 := by have := t.minute_lt; omega
  have hsecond : t.second < 100 := by have := t.second_le; omega
  refine Option.bind_eq_some_iff.2 ⟨_, hyear _, ?_⟩
  refine Option.bind_eq_some_iff.2 ⟨_, hexpect _ _, ?_⟩
  refine Option.bind_eq_some_iff.2 ⟨_, hfield hmonth _, ?_⟩
  refine Option.bind_eq_some_iff.2 ⟨_, hexpect _ _, ?_⟩
  refine Option.bind_eq_some_iff.2 ⟨_, hfield hday _, ?_⟩
  refine Option.bind_eq_some_iff.2 ⟨_, hmark _, ?_⟩
  refine Option.bind_eq_some_iff.2 ⟨_, hfield hhour _, ?_⟩
  refine Option.bind_eq_some_iff.2 ⟨_, hexpect _ _, ?_⟩
  refine Option.bind_eq_some_iff.2 ⟨_, hfield hminute _, ?_⟩
  refine Option.bind_eq_some_iff.2 ⟨_, hexpect _ _, ?_⟩
  refine Option.bind_eq_some_iff.2 ⟨_, hfield hsecond _, ?_⟩
  refine (bind_readPoint _ _).trans (Option.bind_eq_some_iff.2
    ⟨_, readPoint_pointed t.isDigit_fraction t.zone.endsFraction_text, ?_⟩)
  refine Option.bind_eq_some_iff.2 ⟨_, readOffset_text _, ?_⟩
  refine Option.bind_eq_some_iff.2
    ⟨_, Date.ofMonthDay?_of_inMonth (isYear_of_lt t.year_lt) t.inMonth, ?_⟩
  refine Option.bind_eq_some_iff.2
    ⟨_, clockOf?_eq_some_iff.2 ⟨t.hour_lt, t.minute_lt, t.second_le, rfl⟩, ?_⟩
  rfl

theorem exists_timestamp_of_ofTimestamp? {i : Instant} (h : ofTimestamp? cs = some i) :
    ∃ t : Timestamp, t.text = cs ∧ t.instant = i := by
  have hfield {width n : Nat} {cs rest : List Char} (hwidth : 0 < width)
      (h : readExactly width cs = some (n, rest)) : cs = zeroPadded width n ++ rest :=
    ((readExactly_eq_some_iff hwidth).1 h).2
  -- Each step of the reader gives a field, and the text of the field in front of what it leaves.
  obtain ⟨⟨year, _⟩, hyear, h⟩ := Option.bind_eq_some_iff.1 h
  obtain ⟨_, hdash, h⟩ := Option.bind_eq_some_iff.1 h
  obtain ⟨⟨month, _⟩, hmonth, h⟩ := Option.bind_eq_some_iff.1 h
  obtain ⟨_, hdash', h⟩ := Option.bind_eq_some_iff.1 h
  obtain ⟨⟨day, _⟩, hday, h⟩ := Option.bind_eq_some_iff.1 h
  obtain ⟨_, hmark, h⟩ := Option.bind_eq_some_iff.1 h
  obtain ⟨⟨hour, _⟩, hhour, h⟩ := Option.bind_eq_some_iff.1 h
  obtain ⟨_, hcolon, h⟩ := Option.bind_eq_some_iff.1 h
  obtain ⟨⟨minute, _⟩, hminute, h⟩ := Option.bind_eq_some_iff.1 h
  obtain ⟨_, hcolon', h⟩ := Option.bind_eq_some_iff.1 h
  obtain ⟨⟨second, _⟩, hsecond, h⟩ := Option.bind_eq_some_iff.1 h
  obtain ⟨⟨nanos, _⟩, hpoint, h⟩ := Option.bind_eq_some_iff.1 ((bind_readPoint _ _).symm.trans h)
  obtain ⟨offset, hoffset, h⟩ := Option.bind_eq_some_iff.1 h
  obtain ⟨date, hdate, h⟩ := Option.bind_eq_some_iff.1 h
  obtain ⟨clock, hclock, h⟩ := Option.bind_eq_some_iff.1 h
  obtain ⟨mark, hmark_mem, rfl⟩ := expectSeparator_eq_some_iff.1 hmark
  obtain ⟨fraction, hfraction, rfl, rfl⟩ := exists_pointed_of_readPoint hpoint
  obtain ⟨zone, rfl, rfl⟩ := exists_zone_of_readOffset hoffset
  obtain ⟨hhour_lt, hminute_lt, hsecond_le, rfl⟩ := clockOf?_eq_some_iff.1 hclock
  have hyear_lt := ((readExactly_eq_some_iff (by decide)).1 hyear).1
  have hinMonth := Date.inMonth_of_ofMonthDay? hdate
  rw [Date.ofMonthDay?_of_inMonth (isYear_of_lt hyear_lt) hinMonth] at hdate
  obtain rfl := Option.some.inj hdate
  refine ⟨⟨year, month, day, mark, hour, minute, second, fraction, zone, hyear_lt, hinMonth,
    hmark_mem, hhour_lt, hminute_lt, hsecond_le, hfraction⟩, ?_, Option.some.inj h⟩
  rw [hfield (by decide) hyear, expect_eq_some_iff.1 hdash, hfield (by decide) hmonth,
    expect_eq_some_iff.1 hdash', hfield (by decide) hday, hfield (by decide) hhour,
    expect_eq_some_iff.1 hcolon, hfield (by decide) hminute, expect_eq_some_iff.1 hcolon',
    hfield (by decide) hsecond]
  rfl

/-- Exactly the texts of the grammar are read, each as its own instant. -/
theorem ofTimestamp?_eq_some_iff {i : Instant} :
    ofTimestamp? cs = some i ↔ ∃ t : Timestamp, t.text = cs ∧ t.instant = i := by
  refine ⟨exists_timestamp_of_ofTimestamp?, ?_⟩
  rintro ⟨t, rfl, rfl⟩
  exact ofTimestamp?_text t

end Instant

end TokenGrammar.Time
