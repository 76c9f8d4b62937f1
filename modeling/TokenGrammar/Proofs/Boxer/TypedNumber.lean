import TokenGrammar.Boxer.Text
import TokenGrammar.Json.Printer
import TokenGrammar.Proofs.Numeric.Reading
import TokenGrammar.Proofs.Text.Trim

/-!
# Numbers typed as text

Main result: the text of a number, with blanks around it, is boxed like the number itself, except
for the integers that take all 64 bits unsigned.  These are boxed as the nearest binary64 number.
-/

namespace TokenGrammar

theorem WideInt.ofInt?_value (i : WideInt) : WideInt.ofInt? i.value = some i :=
  dif_pos ⟨i.lower, i.upper⟩

/-- Every integer of 64 bits is near a finite number. -/
theorem Binary64.exists_ofInt_eq {n : Nat} (hn : n < 2 ^ 64) :
    ∃ x, Binary64.ofInt n = .finite x := by
  have hless : Binary64.codeOfRatio n 1 < Binary64.infinityCode := by
    have hlast : 2 ^ 64 * Binary64.unitsPerOne ≤
        Binary64.unitsOfCode (Binary64.infinityCode - 1) := by decide +kernel
    have hle : Binary64.codeOfRatio n 1 ≤ Binary64.infinityCode - 1 := by
      apply Binary64.codeOfRatio_le Nat.one_pos
      rw [Nat.mul_one]
      exact Nat.le_trans (Nat.mul_le_mul_right _ hn.le) hlast
    have hpos : 0 < Binary64.infinityCode := by decide
    omega
  exact ⟨_, (Decimal.ofInt_natural n).trans (dif_pos hless)⟩

namespace Boxer

open Binary64 Decimal

theorem fitsSigned_iff {i : WideInt} : i.fitsSigned = true ↔ i.value < 2 ^ 63 := by
  rw [WideInt.fitsSigned, decide_eq_true_iff, Int.pow_eq]

/-- The number that is read where the text of a number is typed. -/
def asTyped : Number → Number
  | .int i => if i.fitsSigned then .int i else .float (Number.int i).toFinite64
  | .float x => .float x

theorem asTyped_eq_self_iff {n : Number} :
    asTyped n = n ↔ ∀ i, n = .int i → i.value < 2 ^ 63 := by
  simp only [← fitsSigned_iff]
  cases n with
  | float x => simp [asTyped]
  | int i => cases hfits : i.fitsSigned <;> simp [asTyped, hfits]

theorem typedFloat?_finiteText (x : Finite64) :
    typedNumber?.typedFloat? (finiteText x) = some (.float x) := by
  rw [typedNumber?.typedFloat?, readBinary64?_finiteText]
  rfl

/-- The text of an integer that needs all 64 bits unsigned gives the nearest number. -/
theorem typedFloat?_intText {i : WideInt} (h : i.fitsSigned = false) :
    typedNumber?.typedFloat? (intText i.value) = some (.float (Number.int i).toFinite64) := by
  have hgreat : ¬ i.value < 2 ^ 63 := fun hless => Bool.eq_false_iff.1 h (fitsSigned_iff.2 hless)
  have hupper := i.upper
  rw [Int.pow_eq] at hupper
  obtain ⟨n, hn⟩ := Int.eq_ofNat_of_zero_le (show 0 ≤ i.value by omega)
  obtain ⟨x, hx⟩ := exists_ofInt_eq (show n < 2 ^ 64 by omega)
  have htext : intText i.value = natText n := by
    rw [intText, if_neg (by omega), hn, Int.natAbs_natCast]
  rw [htext, typedNumber?.typedFloat?, readBinary64?_natText (by omega) (by omega),
    Number.toFinite64, hn, hx]
  rfl

theorem typedNumber?_text {before after : List Char} (hbefore : ∀ c ∈ before, Text.isBlank c = true)
    (hafter : ∀ c ∈ after, Text.isBlank c = true) (n : Number) :
    typedNumber? (before ++ n.text ++ after) = some (asTyped n) := by
  unfold typedNumber?
  dsimp only
  rw [Text.trim_append hbefore hafter,
    Text.trim_of_forall_not_blank fun _ => Number.not_blank_of_mem_text]
  cases n with
  | int i =>
      rw [Number.text, readInteger?_intText, Option.bind_some, WideInt.ofInt?_value, asTyped]
      cases hfits : i.fitsSigned with
      | true => simp [hfits]
      | false => simpa [hfits] using typedFloat?_intText hfits
  | float x =>
      rw [Number.text, readInteger?_finiteText, Option.bind_none]
      exact typedFloat?_finiteText x

theorem box_typed {s : String} {n : Number} (h : typedNumber? s.toList = some n)
    (options : List Choice) :
    numeric.box (.str s) options = .ok (some (.ofKey (.num n))) :=
  congrArg (fun n? : Option Number => Except.ok (n?.map fun n => Choice.ofKey (.num n))) h

theorem box_text {before after : List Char} (hbefore : ∀ c ∈ before, Text.isBlank c = true)
    (hafter : ∀ c ∈ after, Text.isBlank c = true) (n : Number) (options : List Choice) :
    numeric.box (.str (String.ofList (before ++ n.text ++ after))) options =
      .ok (some (.ofKey (.num (asTyped n)))) := by
  apply box_typed
  rw [String.toList_ofList, typedNumber?_text hbefore hafter]

/-- The text of a number with blanks around it is boxed like the number, but for the integers that
need all 64 bits unsigned: these are boxed as the number nearest to them. -/
theorem box_text_eq_iff {before after : List Char} (hbefore : ∀ c ∈ before, Text.isBlank c = true)
    (hafter : ∀ c ∈ after, Text.isBlank c = true) (n : Number) (options : List Choice) :
    (numeric.box (.str (String.ofList (before ++ n.text ++ after))) options =
        numeric.box (.num n) options ↔ ∀ i, n = .int i → i.value < 2 ^ 63) ∧
      ∀ i, n = .int i → 2 ^ 63 ≤ i.value →
        numeric.box (.str (String.ofList (before ++ n.text ++ after))) options =
          .ok (some (.ofKey (.num (.float n.toFinite64)))) := by
  rw [box_text hbefore hafter]
  refine ⟨?_, ?_⟩
  · have hbox : (Except.ok (some (Choice.ofKey (.num (asTyped n)))) : Except Fault _) =
        numeric.box (.num n) options ↔ asTyped n = n := by
      rw [show numeric.box (.num n) options = .ok (some (.ofKey (.num n))) from rfl]
      simp [Choice.ofKey]
    exact hbox.trans asTyped_eq_self_iff
  · rintro i rfl hgreat
    have hfits : i.fitsSigned = false :=
      Bool.eq_false_iff.2 fun h => Int.not_lt.2 hgreat (fitsSigned_iff.1 h)
    rw [asTyped, hfits]
    rfl

/-- The greatest integer of 64 signed bits stays itself between a tab and a no-break space; the
greatest of 64 unsigned bits becomes a power of two. -/
theorem box_text_eq_iff_greatest :
    numeric.box (.str "\t9223372036854775807\u00a0") [] =
        numeric.box (.num (.int ⟨9223372036854775807, by decide, by decide⟩)) [] ∧
      numeric.box (.str "\n18446744073709551615") [] =
        .ok (some (.ofKey (.num (.float ⟨false, 0x43F0000000000000, by decide⟩)))) := by
  have hsigned : "\t9223372036854775807\u00a0" = String.ofList (['\t'] ++
      (Number.int ⟨9223372036854775807, by decide, by decide⟩).text ++ ['\u00a0']) := by
    decide +kernel
  have hunsigned : "\n18446744073709551615" = String.ofList (['\n'] ++
      (Number.int ⟨18446744073709551615, by decide, by decide⟩).text ++ []) := by
    decide +kernel
  have hnearest : (Number.int ⟨18446744073709551615, by decide, by decide⟩).toFinite64 =
      ⟨false, 0x43F0000000000000, by decide⟩ := by
    decide +kernel
  have htab : ∀ c ∈ ['\t'], Text.isBlank c = true := List.forall_mem_singleton.2 (by decide)
  have hline : ∀ c ∈ ['\n'], Text.isBlank c = true := List.forall_mem_singleton.2 (by decide)
  have hspace : ∀ c ∈ ['\u00a0'], Text.isBlank c = true := List.forall_mem_singleton.2 (by decide)
  refine ⟨?_, ?_⟩
  · rw [hsigned]
    refine (box_text_eq_iff htab hspace _ []).1.2 ?_
    rintro i ⟨⟩
    decide
  · have hbox := (box_text_eq_iff hline (List.forall_mem_nil _)
      (.int ⟨18446744073709551615, by decide, by decide⟩) []).2 _ rfl (by decide)
    rw [← hunsigned, hnearest] at hbox
    exact hbox

/-- The least integer that needs all 64 bits is a floating-point number only where it is typed. -/
theorem box_text_ne :
    ∃ typed given : Choice,
      numeric.box (.str "9223372036854775808") [] = .ok (some typed) ∧
      numeric.box (.num (.int ⟨9223372036854775808, by decide, by decide⟩)) [] = .ok (some given) ∧
      typed.key = .num (.float ⟨false, 0x43E0000000000000, by decide⟩) ∧
      (typed == given) = false := by
  have htyped : typedNumber? "9223372036854775808".toList =
      some (.float ⟨false, 0x43E0000000000000, by decide⟩) := by decide +kernel
  exact ⟨_, _, box_typed htyped [], rfl, rfl, by decide +kernel⟩

end Boxer

end TokenGrammar
