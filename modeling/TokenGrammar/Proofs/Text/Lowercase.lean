import Mathlib.Data.List.Infix
import TokenGrammar.Text.Lowercase

/-!
# Lower case of a piece of a text

The lower-case form of a character depends on the text around it for one character only, the
capital sigma.  So a piece of a text has the same form there as on its own just where each of its
capital sigmas ends a word in the text if and only if it does in the piece.  With one form for all
small sigmas, every piece has the same form everywhere.
-/

namespace TokenGrammar.Text

/-- The lower-case form of a piece between the text before it, read backwards, and the text after
it. -/
def lowerWithin (before : List Char) : List Char → List Char → List Char
  | [], _ => []
  | c :: cs, after => lowerChar before c (cs ++ after) ++ lowerWithin (c :: before) cs after

/-- A capital sigma between two texts ends a word. -/
def endsWord (before after : List Char) : Bool :=
  meetsCased before.reverse && !meetsCased after

/-- Each capital sigma of a piece ends a word in the text just where it does in the piece. -/
def SigmasKept (before piece after : List Char) : Prop :=
  ∀ left right, piece = left ++ capitalSigma :: right →
    endsWord (before ++ left) (right ++ after) = endsWord left right

/-- The same form for all small sigmas. -/
def plainSigma (c : Char) : Char := if c = finalSigma then smallSigma else c

/-- The lower-case form of a character, with one form for all small sigmas. -/
def plainLower (c : Char) : List Char := (lowerChar [] c []).map plainSigma

variable {before piece after text : List Char}

/-! ## Occurrences -/

theorem contains_iff_infix : contains text piece = true ↔ piece <:+: text := by
  induction text with
  | nil => simp [contains]
  | cons c text ih => simp [contains, List.infix_cons_iff, ih]

/-! ## Pieces of a text -/

theorem lower_go_eq (before cs : List Char) : lower.go before cs = lowerWithin before cs [] := by
  induction cs generalizing before with
  | nil => rfl
  | cons c cs ih => rw [lower.go, lowerWithin, ih, List.append_nil]

theorem lower_eq (cs : List Char) : lower cs = lowerWithin [] cs [] := lower_go_eq [] cs

theorem lowerWithin_append (before first second after : List Char) :
    lowerWithin before (first ++ second) after =
      lowerWithin before first (second ++ after) ++
        lowerWithin (first.reverse ++ before) second after := by
  induction first generalizing before with
  | nil => rfl
  | cons c first ih => simp [lowerWithin, ih]

/-- The lower-case form of a text has that of each piece in it, as the piece is read there. -/
theorem lowerWithin_infix_lower (before piece after : List Char) :
    lowerWithin before.reverse piece after <:+: lower (before ++ piece ++ after) := by
  rw [lower_eq, lowerWithin_append, lowerWithin_append]
  simp only [List.append_nil]
  exact List.infix_append ..

/-! ## One character -/

theorem lowerChar_capitalSigma (before after : List Char) :
    lowerChar before.reverse capitalSigma after =
      [if endsWord before after then finalSigma else smallSigma] := by
  rw [lowerChar, if_pos rfl, endsWord]

theorem lowerChar_of_ne {c : Char} (h : c ≠ capitalSigma) (before after : List Char) :
    lowerChar before c after = lowerChar [] c [] := by
  rw [lowerChar, lowerChar, if_neg h, if_neg h]

theorem length_lowerChar (before after : List Char) (c : Char) :
    (lowerChar before c after).length = (lowerChar [] c []).length := by
  by_cases hc : c = capitalSigma
  · simp [lowerChar, hc]
  · rw [lowerChar_of_ne hc]

theorem map_plainSigma_lowerChar (before after : List Char) (c : Char) :
    (lowerChar before c after).map plainSigma = plainLower c := by
  by_cases hc : c = capitalSigma
  · have hsigma : smallSigma ≠ finalSigma := by decide
    simp only [plainLower, lowerChar, hc, if_true, List.map_singleton, plainSigma]
    split <;> simp [meetsCased]
  · rw [lowerChar_of_ne hc, plainLower]

/-! ## Whole pieces -/

theorem map_plainSigma_lowerWithin (before piece after : List Char) :
    (lowerWithin before piece after).map plainSigma = piece.flatMap plainLower := by
  induction piece generalizing before with
  | nil => rfl
  | cons c piece ih =>
      rw [lowerWithin, List.map_append, map_plainSigma_lowerChar, ih, List.flatMap_cons]

/-- With one form for all small sigmas a piece of a text is found again in lower case. -/
theorem map_plainSigma_infix (before piece after : List Char) :
    (lower piece).map plainSigma <:+: (lower (before ++ piece ++ after)).map plainSigma := by
  have hpiece : (lower piece).map plainSigma =
      (lowerWithin before.reverse piece after).map plainSigma := by
    rw [lower_eq, map_plainSigma_lowerWithin, map_plainSigma_lowerWithin]
  rw [hpiece]
  exact (lowerWithin_infix_lower before piece after).map plainSigma

theorem sigmasKept_of_not_mem (h : capitalSigma ∉ piece) : SigmasKept before piece after := by
  rintro left right rfl
  simp at h

/-- A character has the same form in two places unless it is a capital sigma that ends a word in
one of them only. -/
theorem lowerChar_eq_iff {before' after' : List Char} {c : Char} :
    lowerChar before.reverse c after = lowerChar before'.reverse c after' ↔
      (c = capitalSigma → endsWord before after = endsWord before' after') := by
  by_cases hc : c = capitalSigma
  · have hsigma : finalSigma ≠ smallSigma := by decide
    rw [hc, lowerChar_capitalSigma, lowerChar_capitalSigma]
    cases endsWord before after <;> cases endsWord before' after' <;> simp [hsigma, hsigma.symm]
  · simp [lowerChar_of_ne hc, hc]

/-- The rest of a piece, behind what was seen of it. -/
theorem lowerWithin_eq_iff (before seen rest after : List Char) :
    lowerWithin (before ++ seen).reverse rest after = lowerWithin seen.reverse rest [] ↔
      ∀ left right, rest = left ++ capitalSigma :: right →
        endsWord (before ++ seen ++ left) (right ++ after) = endsWord (seen ++ left) right := by
  -- Each character moves from the rest to what was seen, and is compared on its own.
  induction rest generalizing seen with
  | nil => simp [lowerWithin]
  | cons c rest ih =>
      have hlength : (lowerChar (before ++ seen).reverse c (rest ++ after)).length =
          (lowerChar seen.reverse c rest).length :=
        (length_lowerChar ..).trans (length_lowerChar ..).symm
      have hnext := ih (seen ++ [c])
      rw [← List.append_assoc, List.reverse_concat, List.reverse_concat] at hnext
      rw [lowerWithin, lowerWithin, List.append_nil]
      constructor
      · intro hsame left right hsplit
        obtain ⟨hfirst, hrest⟩ := List.append_inj hsame hlength
        rw [lowerChar_eq_iff] at hfirst
        rw [hnext] at hrest
        rcases List.cons_eq_append_iff.1 hsplit with ⟨rfl, hsigma⟩ | ⟨left, rfl, rfl⟩
        · obtain ⟨rfl, rfl⟩ := List.cons.inj hsigma
          simpa using hfirst rfl
        · simpa using hrest left right rfl
      · intro hkept
        refine congrArg₂ (· ++ ·) (lowerChar_eq_iff.2 ?_) (hnext.2 ?_)
        · rintro rfl
          simpa using hkept [] rest rfl
        · rintro left right rfl
          simpa using hkept (c :: left) right rfl

/-- A piece has the same form in a text as on its own just where its capital sigmas do. -/
theorem lowerWithin_eq_lower_iff :
    lowerWithin before.reverse piece after = lower piece ↔ SigmasKept before piece after := by
  simpa [lower_eq, SigmasKept] using lowerWithin_eq_iff before [] piece after

instance (before piece after : List Char) : Decidable (SigmasKept before piece after) :=
  decidable_of_iff _ lowerWithin_eq_lower_iff

end TokenGrammar.Text
