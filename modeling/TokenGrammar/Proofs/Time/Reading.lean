import TokenGrammar.Proofs.Text.Trim
import TokenGrammar.Proofs.Time.Timestamp
import TokenGrammar.Time.Pattern

/-!
# What is left behind a number

Reading goes on where a number ends.  A number with zeros in front ends behind its width, a
year with a sign behind its last digit.
-/

namespace TokenGrammar.Time

open Decimal

variable {cs rest more : List Char} {p q : Parts}

theorem trimStart_cons {c : Char} (h : Text.isBlank c = false) :
    Text.trimStart (c :: cs) = c :: cs := by
  simp [Text.trimStart, h]

theorem readUpTo_zeroPadded {width n : Nat} (hwidth : 0 < width) (h : n < 10 ^ width) :
    readUpTo width (zeroPadded width n ++ rest) = some (n, rest) := by
  have hlength := length_zeroPadded h hwidth
  have hdigits : (zeroPadded width n).takeWhile isDigit = zeroPadded width n :=
    List.takeWhile_eq_self_iff.2 fun _ => isDigit_of_mem_zeroPadded
  have hnil : (zeroPadded width n).isEmpty = false := by
    rw [List.isEmpty_eq_false_iff, ← List.length_pos_iff, hlength]
    exact hwidth
  simp only [readUpTo, List.take_left' hlength, hdigits, hnil, natOfDigits_zeroPadded,
    List.drop_left]
  rfl

theorem rest_of_read_number {part : NumericPart} (h : part.read p cs = some (q, rest)) :
    ∃ negative n, part.readNumber (Text.trimStart cs) = some (negative, n, rest) := by
  obtain ⟨⟨negative, n, more⟩, hnumber, h⟩ := Option.bind_eq_some_iff.1 h
  obtain ⟨_, -, h⟩ := Option.bind_eq_some_iff.1 h
  obtain rfl : more = rest := congrArg Prod.snd (Option.some.inj h)
  exact ⟨negative, n, hnumber⟩

/-- A year with a sign is read up to its last digit. -/
theorem rest_of_read_signedYear {sign : Char} {ds : List Char} (hsign : sign = '-' ∨ sign = '+')
    (hds : ∀ d ∈ ds, isDigit d = true) (hrest : EndsFraction rest)
    (h : NumericPart.year.read p (sign :: (ds ++ rest)) = some (q, more)) : more = rest := by
  obtain ⟨negative, n, h⟩ := rest_of_read_number h
  have hany {found : Bool × Nat × List Char} {sign : Bool}
      (h : (readAny (ds ++ rest)).map (sign, ·) = some found) : found.2.2 = rest := by
    obtain ⟨⟨n, left⟩, hread, rfl⟩ := Option.map_eq_some_iff.1 h
    obtain ⟨-, hdrop⟩ := hrest.takeWhile_append hds
    unfold readAny at hread
    dsimp only at hread
    split at hread
    · cases hread
    · rw [hdrop] at hread
      exact (congrArg Prod.snd (Option.some.inj hread)).symm
  rcases hsign with rfl | rfl
  · exact hany h
  · exact hany h

/-- A month or a day is read with its two digits. -/
theorem rest_of_read_twoDigits {part : NumericPart} (hpart : part = .month ∨ part = .day) {n : Nat}
    (hn : n < 100) (h : part.read p (zeroPadded 2 n ++ rest) = some (q, more)) : more = rest := by
  obtain ⟨negative, m, h⟩ := rest_of_read_number h
  obtain ⟨d, ds, hcons, hd⟩ := exists_cons_zeroPadded (show 0 < 2 by decide) hn
  have htrim : Text.trimStart (zeroPadded 2 n ++ rest) = zeroPadded 2 n ++ rest := by
    rw [hcons]
    exact trimStart_cons (not_blank_of_isDigit hd)
  have hread : part.readNumber (zeroPadded 2 n ++ rest) =
      (readUpTo 2 (zeroPadded 2 n ++ rest)).map (false, ·) := by
    rcases hpart with rfl | rfl <;> rfl
  rw [htrim, hread, readUpTo_zeroPadded (by decide) hn] at h
  exact (congrArg (fun found => found.2.2) (Option.some.inj h)).symm

theorem go_cons_eq_some_iff {item : PatternItem} {items : Pattern} {r : Parts} :
    Pattern.parts?.go (item :: items) p cs = some r ↔
      ∃ q rest, item.read p cs = some (q, rest) ∧ Pattern.parts?.go items q rest = some r := by
  rw [Pattern.parts?.go]
  cases item.read p cs with
  | none => simp
  | some found =>
      constructor
      · intro h
        exact ⟨found.1, found.2, rfl, h⟩
      · rintro ⟨q, rest, heq, h⟩
        obtain rfl := Option.some.inj heq
        exact h

theorem rest_of_read_plain {c : Char} (hc : Text.isBlank c = false)
    (h : (PatternItem.plain c).read p cs = some (q, rest)) : cs = c :: rest := by
  simp only [PatternItem.read, hc] at h
  obtain ⟨left, hexpect, heq⟩ := Option.map_eq_some_iff.1 h
  obtain rfl : left = rest := congrArg Prod.snd heq
  exact expect_eq_some_iff.1 hexpect

/-! ## Timestamps among blanks -/

theorem Zone.not_blank_of_mem_text {zone : Zone} {c : Char} (h : c ∈ zone.text) :
    Text.isBlank c = false := by
  cases zone with
  | zulu small =>
      obtain rfl := List.mem_singleton.1 h
      cases small <;> decide
  | offset west typeset hours minutes _ _ =>
      simp only [Zone.text, List.mem_cons, List.mem_append] at h
      rcases h with rfl | h | rfl | h
      · cases west <;> cases typeset <;> decide
      · exact not_blank_of_isDigit (isDigit_of_mem_zeroPadded h)
      · decide
      · exact not_blank_of_isDigit (isDigit_of_mem_zeroPadded h)

/-- A timestamp begins with a digit and ends with its offset. -/
theorem Timestamp.trim_text (t : Timestamp) : Text.trim t.text = t.text := by
  apply Text.trim_of_ends
  · obtain ⟨d, ds, hyear, hd⟩ := exists_cons_zeroPadded (show 0 < 4 by decide) t.year_lt
    intro c hc
    rw [Timestamp.text, hyear] at hc
    obtain rfl : d = c := by simpa using hc
    exact not_blank_of_isDigit hd
  · intro c hc
    obtain ⟨front, hfront⟩ : ∃ front, t.text = front ++ t.zone.text :=
      ⟨zeroPadded 4 t.year ++ '-' :: (zeroPadded 2 t.month ++ '-' :: (zeroPadded 2 t.day ++
        t.mark :: (zeroPadded 2 t.hour ++ ':' :: (zeroPadded 2 t.minute ++
          ':' :: (zeroPadded 2 t.second ++ pointed t.fraction))))), by simp [Timestamp.text]⟩
    have hzone : t.zone.text ≠ [] := by cases t.zone <;> simp [Zone.text]
    rw [hfront, List.getLast?_append_of_ne_nil _ hzone] at hc
    exact Zone.not_blank_of_mem_text (List.mem_of_getLast? hc)

end TokenGrammar.Time
