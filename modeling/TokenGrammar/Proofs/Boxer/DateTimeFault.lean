import TokenGrammar.Boxer.DateTime
import TokenGrammar.Proofs.Time.Canonical
import TokenGrammar.Proofs.Time.Spelling

/-!
# Faults of date-time boxing

Main result: boxing ends in a fault exactly if the value has an instant and the pattern cannot
show one.  Timestamps and seconds have their instant without the pattern, so that they run into
a pattern without a meaning that other texts are merely not read by.
-/

namespace TokenGrammar.Boxer

open Time

variable {pattern : String} {raw : Json} {options : List Choice} {fault : Fault}

/-- The values whose instant does not depend on the pattern: timestamps, and the seconds of the
years that there are dates of. -/
inductive ReadAlone : Json → Prop where
  | timestamp {s : String} (t : Timestamp) (h : t.text = Text.trim s.toList) : ReadAlone (.str s)
  | seconds {i : WideInt} (hfirst : -8334601228800 ≤ i.value) (hlast : i.value ≤ 8210266876799) :
      ReadAlone (.num (.int i))

/-- The text of the value fits the pattern. -/
def Fits (items : Pattern) (raw : Json) : Prop :=
  ∃ s, raw = .str s ∧ (items.instant? (Text.trim s.toList)).isSome = true

theorem isYear_date_iff {i : Instant} :
    isYear i.date.year = true ↔ -8334601228800 ≤ i.seconds ∧ i.seconds ≤ 8210266876799 := by
  have hbounds : firstYear ≤ i.date.year ∧ i.date.year ≤ lastYear ↔
      -8334601228800 ≤ i.seconds ∧ i.seconds < 8210266876800 := Instant.year_bounds_iff i
  unfold isYear
  rw [Bool.and_eq_true, decide_eq_true_eq, decide_eq_true_eq, hbounds]
  omega

theorem isSome_ofSeconds?_iff {seconds : Int} :
    (Instant.ofSeconds? seconds).isSome = true ↔
      -8334601228800 ≤ seconds ∧ seconds ≤ 8210266876799 := by
  have hyear : isYear (⟨seconds, 0⟩ : Instant).date.year = true ↔
      -8334601228800 ≤ seconds ∧ seconds ≤ 8210266876799 := isYear_date_iff
  rw [← hyear]
  unfold Instant.ofSeconds?
  dsimp only
  split <;> simp_all

theorem isSome_instant?_int {i : WideInt} :
    (instant? pattern (.num (.int i))).isSome = true ↔ ReadAlone (.num (.int i)) := by
  change ((Number.int i).int64?.bind Instant.ofSeconds?).isSome = true ↔ _
  by_cases hfits : i.fitsSigned = true
  · rw [Number.int64?, if_pos hfits, Option.bind_some, isSome_ofSeconds?_iff]
    constructor
    · rintro ⟨hfirst, hlast⟩
      exact .seconds hfirst hlast
    · rintro ⟨⟩
      next hfirst hlast => exact ⟨hfirst, hlast⟩
  · have hlarge : ¬ i.value < 9223372036854775808 := by simpa [WideInt.fitsSigned] using hfits
    rw [Number.int64?, if_neg hfits, Option.bind_none]
    constructor
    · simp
    · rintro ⟨⟩
      omega

theorem isSome_ofTimestamp?_iff {text : List Char} :
    (Instant.ofTimestamp? text).isSome = true ↔ ∃ t : Timestamp, t.text = text := by
  rw [Option.isSome_iff_exists]
  constructor
  · rintro ⟨i, h⟩
    obtain ⟨t, htext, -⟩ := Instant.ofTimestamp?_eq_some_iff.1 h
    exact ⟨t, htext⟩
  · rintro ⟨t, rfl⟩
    exact ⟨t.instant, Instant.ofTimestamp?_text t⟩

theorem isSome_instant?_str {s : String} :
    (instant? pattern (.str s)).isSome = true ↔
      ReadAlone (.str s) ∨ ∃ items, Pattern.Spells pattern.toList items ∧ Fits items (.str s) := by
  have halone : ReadAlone (.str s) ↔ (Instant.ofTimestamp? (Text.trim s.toList)).isSome = true := by
    rw [isSome_ofTimestamp?_iff]
    constructor
    · rintro ⟨t, h⟩
      exact ⟨t, h⟩
    · rintro ⟨t, h⟩
      exact .timestamp t h
  have hfits (items : Pattern) :
      Fits items (.str s) ↔ (items.instant? (Text.trim s.toList)).isSome = true := by
    simp [Fits]
  change (typedInstant? pattern s.toList).isSome = true ↔ _
  unfold typedInstant?
  dsimp only
  simp only [halone, hfits, ← Pattern.ofChars?_eq_some_iff]
  cases Instant.ofTimestamp? (Text.trim s.toList) with
  | some i => simp
  | none => cases Pattern.ofChars? pattern.toList <;> simp

/-- A value is read if it is read without the pattern, or if it is a text that fits it. -/
theorem isSome_instant?_iff :
    (instant? pattern raw).isSome = true ↔
      ReadAlone raw ∨ ∃ items, Pattern.Spells pattern.toList items ∧ Fits items raw := by
  have hother {raw : Json} (halone : ¬ ReadAlone raw) (htext : ∀ s, raw ≠ .str s) :
      ¬ (ReadAlone raw ∨ ∃ items, Pattern.Spells pattern.toList items ∧ Fits items raw) := by
    rintro (h | ⟨_, _, s, h, _⟩)
    · exact halone h
    · exact htext s h
  cases raw with
  | str s => exact isSome_instant?_str
  | num n =>
    cases n with
    | int i => simp [isSome_instant?_int, Fits]
    | float x => exact iff_of_false (by simp [instant?, Number.int64?]) (hother nofun nofun)
  | null | bool b | arr items | obj fields =>
    exact iff_of_false (by simp [instant?]) (hother nofun nofun)

theorem box_eq_error_iff :
    (dateTime pattern).box raw options = .error fault ↔
      fault = .unrenderable pattern ∧ (instant? pattern raw).isSome = true ∧
        (Pattern.ofChars? pattern.toList).filter Pattern.isShowable = none := by
  change boxDateTime pattern raw options = _ ↔ _
  unfold boxDateTime
  cases instant? pattern raw with
  | none => simp
  | some i =>
    cases (Pattern.ofChars? pattern.toList).filter Pattern.isShowable with
    | none => simp [eq_comm]
    | some items => simp

/-- Boxing ends in a fault exactly if the value is read and the pattern cannot be shown: it has a
directive without a meaning, and the value is read without it, or it asks for an offset in any
of several forms. -/
theorem dateTime_fault_iff :
    (dateTime pattern).box raw options = .error fault ↔
      fault = .unrenderable pattern ∧
        ((∀ items, ¬ Pattern.Spells pattern.toList items) ∧ ReadAlone raw ∨
          ∃ items, Pattern.Spells pattern.toList items ∧ .anyOffset ∈ items ∧
            (ReadAlone raw ∨ Fits items raw)) := by
  rw [box_eq_error_iff, isSome_instant?_iff, Pattern.filter_isShowable_eq_none_iff]
  refine and_congr_right fun _ => ?_
  constructor
  · rintro ⟨hread, hnone | ⟨items, hspells, hany⟩⟩
    · have halone : ReadAlone raw :=
        hread.resolve_right fun ⟨items, hspells, _⟩ => hnone items hspells
      exact .inl ⟨hnone, halone⟩
    -- The pattern has one reading, so the value fits the very pieces with the offset.
    · refine .inr ⟨items, hspells, hany, hread.imp_right ?_⟩
      rintro ⟨items', hspells', hfits⟩
      exact hspells.unique hspells' ▸ hfits
  · rintro (⟨hnone, halone⟩ | ⟨items, hspells, hany, hread⟩)
    · exact ⟨.inl halone, .inl hnone⟩
    · exact ⟨hread.imp_right fun hfits => ⟨items, hspells, hfits⟩, .inr ⟨items, hspells, hany⟩⟩

/-- No directive has the letter of this pattern, and the first second of 1970 runs into it. -/
theorem dateTime_fault_unknownLetter :
    (dateTime "%Q").box (.ofInt 0) [] = .error (.unrenderable "%Q") := by
  rfl

end TokenGrammar.Boxer
