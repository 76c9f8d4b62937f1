import Mathlib.Algebra.Group.Nat.Defs
import TokenGrammar.Numeric.Decimal

/-!
# Decimal text of natural numbers

A natural number is written with digits alone, and its digits read back to it, so that no two
numbers have one text.
-/

namespace TokenGrammar.Decimal

theorem digitValue?_digitChar {digit : Nat} (h : digit < 10) :
    digitValue? (digitChar digit) = some digit := by
  revert digit
  decide

theorem isDigit_digitChar {digit : Nat} (h : digit < 10) : isDigit (digitChar digit) = true := by
  rw [isDigit, digitValue?_digitChar h]
  rfl

theorem isDigit_of_mem_natDigitsOnto {acc : List Char} (h : ∀ c ∈ acc, isDigit c = true)
    (rounds n : Nat) : ∀ c ∈ natDigitsOnto rounds n acc, isDigit c = true := by
  induction rounds generalizing n acc with
  | zero => exact h
  | succ rounds ih =>
      rw [natDigitsOnto]
      split
      next hlt => exact List.forall_mem_cons.2 ⟨isDigit_digitChar hlt, h⟩
      next =>
        have hlast : n % 10 < 10 := Nat.mod_lt n (by decide)
        exact ih (List.forall_mem_cons.2 ⟨isDigit_digitChar hlast, h⟩) _

theorem isDigit_of_mem_natText {n : Nat} {c : Char} (h : c ∈ natText n) : isDigit c = true :=
  isDigit_of_mem_natDigitsOnto (by simp) _ n c h

/-- The number that was read so far with one more digit. -/
def readDigit (n : Nat) (c : Char) : Nat :=
  match digitValue? c with
  | some d => 10 * n + d
  | none => n

theorem readDigit_digitChar (n : Nat) {digit : Nat} (h : digit < 10) :
    readDigit n (digitChar digit) = 10 * n + digit := by
  simp [readDigit, digitValue?_digitChar h]

theorem foldl_readDigit {rounds n : Nat} (h : n < 2 ^ rounds) (acc : List Char) :
    (natDigitsOnto rounds n acc).foldl readDigit 0 = acc.foldl readDigit n := by
  -- Each round cuts off the last digit, which is then read behind the others.
  induction rounds generalizing n acc with
  | zero =>
      obtain rfl : n = 0 := by omega
      rfl
  | succ rounds ih =>
      rw [natDigitsOnto]
      split
      next hlt => rw [List.foldl_cons, readDigit_digitChar 0 hlt, Nat.mul_zero, Nat.zero_add]
      next hge =>
        have hrest : n / 10 < 2 ^ rounds := by
          rw [Nat.pow_succ] at h
          omega
        have hlast : n % 10 < 10 := Nat.mod_lt n (by decide)
        rw [ih hrest, List.foldl_cons, readDigit_digitChar _ hlast, Nat.div_add_mod]

theorem natOfDigits_natText (n : Nat) : natOfDigits (natText n) = n :=
  foldl_readDigit Nat.lt_log2_self []

theorem natDigitsOnto_succ_ne_nil (rounds n : Nat) (acc : List Char) :
    natDigitsOnto (rounds + 1) n acc ≠ [] := by
  induction rounds generalizing n acc with
  | zero =>
      rw [natDigitsOnto]
      split <;> exact List.cons_ne_nil _ _
  | succ rounds ih =>
      rw [natDigitsOnto]
      split
      · exact List.cons_ne_nil _ _
      · exact ih _ _

theorem natText_ne_nil (n : Nat) : natText n ≠ [] := natDigitsOnto_succ_ne_nil _ n []

theorem length_natText_pos (n : Nat) : 0 < (natText n).length :=
  List.length_pos_iff.2 (natText_ne_nil n)

theorem natText_inj {m n : Nat} (h : natText m = natText n) : m = n := by
  rw [← natOfDigits_natText m, h, natOfDigits_natText]

end TokenGrammar.Decimal
