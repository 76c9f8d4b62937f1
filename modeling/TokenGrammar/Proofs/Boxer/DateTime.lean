import TokenGrammar.Boxer.DateTime
import TokenGrammar.Proofs.Text.Ascii
import TokenGrammar.Proofs.Time.Canonical
import TokenGrammar.Proofs.Time.Coarse
import TokenGrammar.Proofs.Time.Reading

/-!
# Keys of instants

Main results: the key of an instant is boxed to itself once more exactly if its year has four
digits, and keys come in the order of time, whatever text an instant was given as.
-/

namespace TokenGrammar

open Decimal

namespace Boxer

open Time

/-! ## The default pattern -/

/-- The pieces of the default pattern. -/
def defaultItems : Pattern :=
  [Pattern.zeros .year, .plain '-', Pattern.zeros .month, .plain '-', Pattern.zeros .day,
   .plain ' ', Pattern.zeros .hour, .plain ':', Pattern.zeros .minute]

theorem ofChars?_defaultPattern : Pattern.ofChars? defaultPattern.toList = some defaultItems := by
  decide

theorem isCoarse_of_mem_defaultItems : ∀ item ∈ defaultItems, item.isCoarse = true := by
  decide

/-- A date with a sign in front, and the mark of a timestamp behind it, does not fit. -/
theorem go_defaultItems_signed {sign : Char} (hsign : sign = '-' ∨ sign = '+') {ds rest : List Char}
    (hds : ∀ d ∈ ds, isDigit d = true) {month day : Nat} (hmonth : month < 100) (hday : day < 100)
    (p : Parts) :
    Pattern.parts?.go defaultItems p (sign :: (ds ++ '-' :: (zeroPadded 2 month ++
      '-' :: (zeroPadded 2 day ++ 'T' :: rest)))) = none := by
  rw [Option.eq_none_iff_forall_ne_some]
  intro r h
  -- Up to the day every piece takes what was written for it.  The blank of the pattern takes
  -- nothing then, and the hour meets the `T`.
  obtain ⟨p, _, hread, h⟩ := go_cons_eq_some_iff.1 h
  have hends (cs : List Char) : EndsFraction ('-' :: cs) := by
    rintro c hc
    obtain rfl : '-' = c := by simpa using hc
    decide
  obtain rfl := rest_of_read_signedYear hsign hds (hends _) hread
  obtain ⟨p, _, hread, h⟩ := go_cons_eq_some_iff.1 h
  obtain ⟨-, rfl⟩ := List.cons.inj (rest_of_read_plain (by decide) hread)
  obtain ⟨p, _, hread, h⟩ := go_cons_eq_some_iff.1 h
  obtain rfl := rest_of_read_twoDigits (.inl rfl) hmonth hread
  obtain ⟨p, _, hread, h⟩ := go_cons_eq_some_iff.1 h
  obtain ⟨-, rfl⟩ := List.cons.inj (rest_of_read_plain (by decide) hread)
  obtain ⟨p, _, hread, h⟩ := go_cons_eq_some_iff.1 h
  obtain rfl := rest_of_read_twoDigits (.inr rfl) hday hread
  obtain ⟨p, _, hread, h⟩ := go_cons_eq_some_iff.1 h
  obtain ⟨-, rfl⟩ := Prod.mk.inj (Option.some.inj hread)
  obtain ⟨_, _, hread, -⟩ := go_cons_eq_some_iff.1 h
  cases hread

theorem instant?_defaultItems_timestamp {i : Instant} (h : ¬ i.FourDigitYear) :
    defaultItems.instant? i.timestamp = none := by
  obtain ⟨sign, hsign, hyear⟩ := Instant.yearText_of_signed h
  have hmonth := i.valid_date.inMonth.1.month_le
  have hday := i.valid_date.inMonth.1.day_le_31
  have htext : i.timestamp = sign :: (zeroPadded 4 i.date.year.natAbs ++
      '-' :: (zeroPadded 2 i.date.month ++ '-' :: (zeroPadded 2 i.date.day ++
        'T' :: (twoDigits i.clock.hour ++ ':' :: (twoDigits i.clock.minute ++
          ':' :: (twoDigits i.clock.shownSecond ++ ['Z'])))))) := by
    rw [Instant.timestamp, Instant.dateTimeText, hyear]
    simp [Instant.twoDigits_eq]
  rw [Pattern.instant?, Pattern.parts?, htext,
    go_defaultItems_signed hsign (fun _ => isDigit_of_mem_zeroPadded)
      (show i.date.month < 100 by omega) (show i.date.day < 100 by omega)]
  rfl

/-- What the default pattern shows does not depend on the fraction. -/
theorem text_defaultItems_congr {i j : Instant} (h : i.seconds = j.seconds) :
    defaultItems.text i = defaultItems.text j := by
  obtain ⟨seconds, nanos⟩ := i
  obtain ⟨seconds', nanos'⟩ := j
  obtain rfl : seconds = seconds' := h
  rfl

/-! ## Boxing -/

/-- The choice for an instant: its timestamp, shown by the default pattern. -/
def instantChoice (i : Instant) : Choice :=
  { Choice.ofKey (.str (String.ofList i.timestamp)) with
    label := some (String.ofList (defaultItems.text i)) }

theorem box_defaultPattern (raw : Json) (options : List Choice) :
    (dateTime defaultPattern).box raw options =
      .ok ((instant? defaultPattern raw).map instantChoice) := by
  have hshown : (some defaultItems).filter Pattern.isShowable = some defaultItems := rfl
  change boxDateTime defaultPattern raw options = _
  unfold boxDateTime
  rw [ofChars?_defaultPattern, hshown]
  cases instant? defaultPattern raw <;> rfl

theorem typedInstant?_defaultPattern (text : List Char) :
    typedInstant? defaultPattern text =
      (Instant.ofTimestamp? (Text.trim text)).or (defaultItems.instant? (Text.trim text)) := by
  unfold typedInstant?
  dsimp only
  rw [ofChars?_defaultPattern]
  cases Instant.ofTimestamp? (Text.trim text) <;> rfl

/-- Instants that are read have no more than a leap second's fraction. -/
theorem proper_of_instant? {raw : Json} {i : Instant} (h : instant? defaultPattern raw = some i) :
    i.Proper := by
  cases raw with
  | str s =>
      change typedInstant? defaultPattern s.toList = some i at h
      rw [typedInstant?_defaultPattern, Option.or_eq_some_iff] at h
      rcases h with hread | ⟨-, hread⟩
      · obtain ⟨t, -, rfl⟩ := Instant.exists_timestamp_of_ofTimestamp? hread
        exact t.proper_instant
      · have hnanos := Pattern.instant?_nanos isCoarse_of_mem_defaultItems hread
        exact .inl (hnanos ▸ by decide)
  | num n =>
      obtain ⟨seconds, -, h⟩ := Option.bind_eq_some_iff.1 h
      unfold Instant.ofSeconds? at h
      dsimp only at h
      split at h
      · obtain rfl := Option.some.inj h
        exact .inl (show 0 < nanosPerSecond by decide)
      · cases h
  | null | bool b | arr items | obj fields => cases h

theorem trim_timestamp (i : Instant) : Text.trim i.timestamp = i.timestamp := by
  have hmarks : (Instant.timestampMarks.all fun c => !Text.isBlank c) = true := by decide
  apply Text.trim_of_forall_not_blank
  intro c hc
  rcases Instant.mem_timestamp hc with hdigit | hmark
  · exact not_blank_of_isDigit hdigit
  · simpa using List.all_eq_true.1 hmarks c hmark

theorem isAscii_of_isDigit {c : Char} (h : isDigit c = true) : Text.isAscii c = true := by
  have hall : ∀ digit < 10, Text.isAscii (digitChar digit) = true := by decide
  obtain ⟨digit, hlt, -, rfl⟩ := isDigit_eq_true_iff.1 h
  exact hall digit hlt

theorem isAscii_of_mem_timestamp {i : Instant} {c : Char} (h : c ∈ i.timestamp) :
    Text.isAscii c = true := by
  have hmarks : Instant.timestampMarks.all Text.isAscii = true := by decide
  rcases Instant.mem_timestamp h with hdigit | hmark
  · exact isAscii_of_isDigit hdigit
  · exact List.all_eq_true.1 hmarks c hmark

theorem instantChoice_wholeSecond (i : Instant) :
    instantChoice i.wholeSecond = instantChoice i := by
  have htext : defaultItems.text i.wholeSecond = defaultItems.text i := text_defaultItems_congr rfl
  unfold instantChoice
  rw [Instant.timestamp_wholeSecond, htext]

/-- The key of an instant gives it back without its fraction, if its year has four digits, and
nothing else. -/
theorem instant?_key {i : Instant} (h : i.Proper) :
    instant? defaultPattern (.str (String.ofList i.timestamp)) =
      if 0 ≤ i.date.year ∧ i.date.year ≤ 9999 then some i.wholeSecond else none := by
  change typedInstant? defaultPattern (String.ofList i.timestamp).toList = _
  rw [typedInstant?_defaultPattern, String.toList_ofList, trim_timestamp]
  split
  next hyear => rw [Instant.ofTimestamp?_timestamp hyear h, Option.some_or]
  next hyear =>
    rw [instant?_defaultItems_timestamp hyear, Option.or_none]
    obtain ⟨sign, hsign, htext⟩ := Instant.yearText_of_signed hyear
    rw [Instant.timestamp, Instant.dateTimeText, htext]
    exact Instant.ofTimestamp?_of_signed hsign

/-- A key is boxed to the value that it came from exactly if its year has four digits, and has
no boxed form otherwise. -/
theorem dateTime_key_again {raw : Json} {options options' : List Choice} {choice : Choice}
    (h : (dateTime defaultPattern).box raw options = .ok (some choice)) :
    ∃ i, instant? defaultPattern raw = some i ∧
      (dateTime defaultPattern).box ((dateTime defaultPattern).unbox choice) options' =
        .ok (if 0 ≤ i.date.year ∧ i.date.year ≤ 9999 then some choice else none) := by
  rw [box_defaultPattern] at h
  obtain ⟨i, hread, rfl⟩ := Option.map_eq_some_iff.1 (Except.ok.inj h)
  refine ⟨i, hread, ?_⟩
  have hkey := instant?_key (proper_of_instant? hread)
  rw [box_defaultPattern]
  change Except.ok ((instant? defaultPattern (.str (String.ofList i.timestamp))).map _) = _
  rw [hkey]
  split
  next => rw [Option.map_some, instantChoice_wholeSecond]
  next => rfl

/-- The leap second at the end of 2016, given an hour east with a fraction, has the key of the
whole leap second, which is boxed to the same choice. -/
theorem dateTime_key_again_leapSecond :
    let choice : Choice :=
      { Choice.ofKey (.str "2016-12-31T23:59:60Z") with label := some "2016-12-31 23:59" }
    (dateTime defaultPattern).box (.str "2017-01-01T00:59:60.5+01:00") [] = .ok (some choice) ∧
      ∃ i, instant? defaultPattern (.str "2017-01-01T00:59:60.5+01:00") = some i ∧
        (dateTime defaultPattern).box ((dateTime defaultPattern).unbox choice) [] =
          .ok (if 0 ≤ i.date.year ∧ i.date.year ≤ 9999 then some choice else none) := by
  intro choice
  have hbox : (dateTime defaultPattern).box (.str "2017-01-01T00:59:60.5+01:00") [] =
      .ok (some choice) := by
    rw [box_defaultPattern]
    rfl
  exact ⟨hbox, dateTime_key_again hbox⟩

/-- The first second of the year 10000 is boxed under a key that has no boxed form. -/
theorem dateTime_key_lost :
    let choice : Choice :=
      { Choice.ofKey (.str "+10000-01-01T00:00:00Z") with label := some "+10000-01-01 00:00" }
    (dateTime defaultPattern).box (.ofInt 253402300800) [] = .ok (some choice) ∧
      (dateTime defaultPattern).box ((dateTime defaultPattern).unbox choice) [] = .ok none := by
  intro choice
  rw [box_defaultPattern, box_defaultPattern]
  exact ⟨rfl, rfl⟩

/-! ## The order of keys -/

/-- The value is boxed under the key, whatever the options. -/
def HasKey (raw : Json) (key : String) : Prop :=
  ∀ options, ∃ choice, (dateTime defaultPattern).box raw options = .ok (some choice) ∧
    choice.key = .str key

theorem hasKey_of_instant? {raw : Json} {i : Instant} (h : instant? defaultPattern raw = some i) :
    HasKey raw (String.ofList i.timestamp) := by
  intro options
  refine ⟨instantChoice i, ?_, rfl⟩
  rw [box_defaultPattern, h]
  rfl

theorem instant?_ofInt {seconds : Int} (h : (⟨seconds, 0⟩ : Instant).FourDigitYear) :
    instant? defaultPattern (.ofInt seconds) = some ⟨seconds, 0⟩ := by
  obtain ⟨hlower, hupper⟩ := Instant.fourDigitYear_iff.1 h
  dsimp only at hlower hupper
  have hwide : -Int.pow 2 63 ≤ seconds ∧ seconds < Int.pow 2 64 := by
    norm_num
    omega
  have hsigned : (⟨seconds, hwide.1, hwide.2⟩ : WideInt).fitsSigned = true := by
    apply decide_eq_true
    norm_num
    omega
  have hyear : isYear (⟨seconds, 0⟩ : Instant).date.year = true := by
    obtain ⟨hfirst, hlast⟩ := h
    unfold isYear firstYear lastYear
    simp only [Bool.and_eq_true, decide_eq_true_eq]
    omega
  have hnumber : (Number.ofInt seconds).int64? = some seconds := by
    unfold Number.ofInt WideInt.ofInt?
    rw [dif_pos hwide]
    exact if_pos hsigned
  change (Number.ofInt seconds).int64?.bind Instant.ofSeconds? = _
  rw [hnumber]
  exact if_pos hyear

theorem instant?_text (t : Timestamp) :
    instant? defaultPattern (.str (String.ofList t.text)) = some t.instant := by
  change typedInstant? defaultPattern (String.ofList t.text).toList = _
  rw [typedInstant?_defaultPattern, String.toList_ofList, t.trim_text, Instant.ofTimestamp?_text,
    Option.some_or]

/-- Keys come in the order of time: a later second has a key with greater bytes, and a timestamp
in whatever offset, with or without a fraction, has the key of its second. -/
theorem keys_sort_like_time {first : Int} (hfirst : (⟨first, 0⟩ : Instant).FourDigitYear) :
    ∃ key, HasKey (.ofInt first) key ∧
      (∀ t : Timestamp, t.second < 60 → t.instant.seconds = first →
        HasKey (.str (String.ofList t.text)) key) ∧
      ∀ second, first < second → (⟨second, 0⟩ : Instant).FourDigitYear →
        ∃ later, HasKey (.ofInt second) later ∧ Text.bytes key < Text.bytes later := by
  have hproper (seconds : Int) : (⟨seconds, 0⟩ : Instant).Proper :=
    .inl (show 0 < nanosPerSecond by decide)
  refine ⟨String.ofList (⟨first, 0⟩ : Instant).timestamp,
    hasKey_of_instant? (instant?_ofInt hfirst), ?_, ?_⟩
  · intro t hleap hseconds
    have hwhole : t.instant.nanos / nanosPerSecond = 0 := t.nanos_div_of_lt hleap
    have htimestamp : (⟨first, 0⟩ : Instant).timestamp = t.instant.timestamp :=
      Instant.timestamp_congr hseconds.symm ((Nat.zero_div _).trans hwhole.symm)
    rw [htimestamp]
    exact hasKey_of_instant? (instant?_text t)
  · intro second hlt hsecond
    refine ⟨_, hasKey_of_instant? (instant?_ofInt hsecond), ?_⟩
    apply Text.bytes_ofList_lt
    · intro c hc
      exact isAscii_of_mem_timestamp hc
    · intro c hc
      exact isAscii_of_mem_timestamp hc
    · exact Instant.timestamp_lt hfirst (hproper first) hsecond (hproper second) hlt

/-- The last second of the evening before 1970 in universal time, written an hour to the west. -/
def lastEvening : Timestamp where
  year := 1969
  month := 12
  day := 31
  mark := 'T'
  hour := 22
  minute := 59
  second := 59
  fraction := "75".toList
  zone := .offset true false 1 0 (by decide) (by decide)
  year_lt := by decide
  inMonth := ⟨by decide, by decide, 31, rfl, by decide⟩
  mark_mem := Instant.mem_separators
  hour_lt := by decide
  minute_lt := by decide
  second_le := by decide
  isDigit_fraction := List.all_eq_true.1 (show "75".toList.all isDigit = true by decide)

theorem keys_sort_like_time_newYear :
    (⟨-1, 0⟩ : Instant).FourDigitYear ∧ (⟨0, 0⟩ : Instant).FourDigitYear ∧
      String.ofList lastEvening.text = "1969-12-31T22:59:59.75-01:00" ∧
      ∃ key later, HasKey (.ofInt (-1)) key ∧ HasKey (.str "1969-12-31T22:59:59.75-01:00") key ∧
        HasKey (.ofInt 0) later ∧ Text.bytes key < Text.bytes later := by
  have hfirst : (⟨-1, 0⟩ : Instant).FourDigitYear := Instant.fourDigitYear_iff.2 (by decide)
  have hsecond : (⟨0, 0⟩ : Instant).FourDigitYear := Instant.fourDigitYear_iff.2 (by decide)
  have htext : String.ofList lastEvening.text = "1969-12-31T22:59:59.75-01:00" := by decide
  obtain ⟨key, hkey, hwritten, hlater⟩ := keys_sort_like_time hfirst
  obtain ⟨later, hkey', hlt⟩ := hlater 0 (by decide) hsecond
  have hevening := hwritten lastEvening (by decide) rfl
  rw [htext] at hevening
  exact ⟨hfirst, hsecond, htext, key, later, hkey, hevening, hkey', hlt⟩

end Boxer

end TokenGrammar
