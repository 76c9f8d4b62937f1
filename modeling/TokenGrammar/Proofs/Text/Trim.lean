import Mathlib.Data.List.DropRight
import TokenGrammar.Json.Printer
import TokenGrammar.Proofs.Numeric.Padded
import TokenGrammar.Text.Blank

/-!
# Trimmed text

Trimming takes blank characters off the ends only, so that trimming once more changes
nothing.  The text of a number has no blank characters to begin with.
-/

namespace TokenGrammar

namespace Text

variable {cs : List Char}

theorem trim_eq (cs : List Char) : trim cs = (cs.dropWhile isBlank).rdropWhile isBlank := rfl

theorem trimStart_trim (cs : List Char) : trimStart (trim cs) = trim cs := by
  rw [trimStart, List.dropWhile_eq_self_iff]
  intro hpos
  -- What was trimmed begins as the text does behind its blank characters.
  have hfront := List.rdropWhile_prefix isBlank (cs.dropWhile isBlank)
  have hfirst := List.dropWhile_eq_self_iff.1 (List.dropWhile_idempotent isBlank cs)
    (Nat.lt_of_lt_of_le hpos hfront.length_le)
  rwa [← hfront.getElem hpos] at hfirst

theorem trim_trim (cs : List Char) : trim (trim cs) = trim cs := by
  rw [trim_eq (trim cs), ← trimStart, trimStart_trim, trim_eq, List.rdropWhile_idempotent]

theorem trim_of_ends (hfirst : ∀ c ∈ cs.head?, isBlank c = false)
    (hlast : ∀ c ∈ cs.getLast?, isBlank c = false) : trim cs = cs := by
  have hstart : cs.dropWhile isBlank = cs := by
    cases cs with
    | nil => rfl
    | cons c cs => simp [hfirst c rfl]
  rw [trim_eq, hstart, List.rdropWhile_eq_self_iff]
  intro hcs
  simp [hlast _ (List.getLast?_eq_getLast_of_ne_nil hcs)]

theorem trim_of_forall_not_blank (h : ∀ c ∈ cs, isBlank c = false) : trim cs = cs :=
  trim_of_ends (fun c hc => h c (List.mem_of_head? hc)) fun c hc => h c (List.mem_of_getLast? hc)

theorem trim_append {before after : List Char} (hbefore : ∀ c ∈ before, isBlank c = true)
    (hafter : ∀ c ∈ after, isBlank c = true) (cs : List Char) :
    trim (before ++ cs ++ after) = trim cs := by
  rw [trim_eq, trim_eq, List.append_assoc, List.dropWhile_append_of_pos hbefore,
    List.dropWhile_append]
  split
  next hempty =>
    -- Nothing is left but blanks, and those behind go from the front.
    rw [List.dropWhile_eq_nil_iff.2 hafter, List.isEmpty_iff.1 hempty]
  next =>
    rw [List.rdropWhile, List.reverse_append, List.dropWhile_append_of_pos (by simpa using hafter),
      List.rdropWhile]

end Text

namespace Decimal

/-- The characters that numbers are written with. -/
def numeralChars : List Char := "0123456789+-.e".toList

theorem not_blank_of_mem_numeralChars {c : Char} (h : c ∈ numeralChars) :
    Text.isBlank c = false := by
  have hall : (numeralChars.all fun c => !Text.isBlank c) = true := by decide
  simpa using List.all_eq_true.1 hall c h

theorem digitChar_mem {digit : Nat} (h : digit < 10) : digitChar digit ∈ numeralChars := by
  revert digit
  decide

theorem not_blank_of_isDigit {c : Char} (h : isDigit c = true) : Text.isBlank c = false := by
  obtain ⟨digit, hlt, -, rfl⟩ := isDigit_eq_true_iff.1 h
  exact not_blank_of_mem_numeralChars (digitChar_mem hlt)

theorem natDigitsOnto_subset {acc : List Char} (h : acc ⊆ numeralChars) (rounds n : Nat) :
    natDigitsOnto rounds n acc ⊆ numeralChars := by
  induction rounds generalizing n acc with
  | zero => exact h
  | succ rounds ih =>
      rw [natDigitsOnto]
      split
      next hlt => exact List.cons_subset.2 ⟨digitChar_mem hlt, h⟩
      next => exact ih (List.cons_subset.2 ⟨digitChar_mem (Nat.mod_lt n (by decide)), h⟩) _

theorem natText_subset (n : Nat) : natText n ⊆ numeralChars :=
  natDigitsOnto_subset (List.nil_subset _) _ n

theorem intText_subset (i : Int) : intText i ⊆ numeralChars := by
  unfold intText
  split
  · exact List.cons_subset.2 ⟨by decide, natText_subset _⟩
  · exact natText_subset _

theorem layout_subset (d : Decimal) : layout d ⊆ numeralChars := by
  have hdigits := natText_subset d.digits
  have htake (n : Nat) := List.Subset.trans (List.take_subset n _) hdigits
  have hdrop (n : Nat) := List.Subset.trans (List.drop_subset n _) hdigits
  have hzeros (n : Nat) : List.replicate n '0' ⊆ numeralChars := fun c hc => by
    rw [List.eq_of_mem_replicate hc]
    decide
  have hmarks : '.' ∈ numeralChars ∧ 'e' ∈ numeralChars ∧ '-' ∈ numeralChars ∧
      '+' ∈ numeralChars ∧ '0' ∈ numeralChars := by decide
  unfold layout
  simp only
  split_ifs <;>
    simp only [List.append_subset, List.cons_subset, List.nil_subset, hmarks, hdigits, htake,
      hdrop, hzeros, natText_subset, and_self]

theorem finiteText_subset (x : Finite64) : finiteText x ⊆ numeralChars := by
  have hmagnitude : (if x.code = 0 then ['0', '.', '0'] else layout (shortest x.code)) ⊆
      numeralChars := by
    split
    · decide
    · exact layout_subset _
  unfold finiteText
  dsimp only
  split
  · exact List.cons_subset.2 ⟨by decide, hmagnitude⟩
  · exact hmagnitude

end Decimal

theorem Number.not_blank_of_mem_text {n : Number} {c : Char} (h : c ∈ n.text) :
    Text.isBlank c = false := by
  refine Decimal.not_blank_of_mem_numeralChars ?_
  cases n with
  | int i => exact Decimal.intText_subset i.value h
  | float x => exact Decimal.finiteText_subset x h

end TokenGrammar
