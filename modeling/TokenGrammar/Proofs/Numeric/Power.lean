import TokenGrammar.Proofs.Numeric.Arithmetic

/-!
# Powers by repeated squaring

Powers of two are numbers, so a rounded product is never below the product of the powers of two
that its factors reach.  Hence a power reaches the power of two that its base promises, and is
infinite where no finite number does.
-/

namespace TokenGrammar.Binary64

/-- Positive, and no less than this power of two. -/
inductive AtLeast (exponent : Nat) : Binary64 → Prop where
  | finite {x : Finite64} (positive : x.negative = false)
      (reached : 2 ^ exponent * unitsPerOne ≤ x.units) : AtLeast exponent (.finite x)
  | infinite : AtLeast exponent (.infinite false)

theorem atLeast_ofRatio {exponent num den : Nat} (hden : 0 < den) (h : 2 ^ exponent * den ≤ num) :
    AtLeast exponent (ofRatio false num den) := by
  obtain ⟨places, hplaces⟩ := exists_unitsPerOne_eq
  obtain ⟨code, hcode⟩ := exists_unitsOfCode (show 1 ≤ 2 ^ 53 by decide) (exponent + places)
  rw [Nat.one_mul, Nat.pow_add, ← hplaces] at hcode
  have hreached : code ≤ codeOfRatio num den := by
    apply le_codeOfRatio hden
    calc unitsOfCode code * den = 2 ^ exponent * den * unitsPerOne := by
          rw [hcode]
          ring
      _ ≤ num * unitsPerOne := Nat.mul_le_mul_right _ h
  have hunits := unitsOfCode_strictMono.monotone hreached
  rw [hcode] at hunits
  unfold ofRatio ofCode
  split
  · exact .finite rfl hunits
  · exact .infinite

theorem units_ne_zero_of_reached {exponent : Nat} {x : Finite64}
    (h : 2 ^ exponent * unitsPerOne ≤ x.units) : x.units ≠ 0 := by
  have hpos := Nat.mul_pos (Nat.two_pow_pos exponent) unitsPerOne_pos
  omega

theorem mul_infinite {x : Finite64} (hx : x.units ≠ 0) (negative : Bool) :
    (finite x).mul (infinite negative) = infinite (x.negative != negative) :=
  if_neg (mt Finite64.units_eq_zero_iff.2 hx)

theorem infinite_mul {x : Finite64} (hx : x.units ≠ 0) (negative : Bool) :
    (infinite negative).mul (finite x) = infinite (x.negative != negative) :=
  if_neg (mt Finite64.units_eq_zero_iff.2 hx)

theorem AtLeast.mul {k l : Nat} {a b : Binary64} (ha : AtLeast k a) (hb : AtLeast l b) :
    AtLeast (k + l) (a.mul b) := by
  cases ha with
  | infinite =>
      cases hb with
      | infinite => exact .infinite
      | @finite y hy reached =>
          rw [infinite_mul (units_ne_zero_of_reached reached), hy]
          exact .infinite
  | @finite x hx hreached =>
      cases hb with
      | infinite =>
          rw [mul_infinite (units_ne_zero_of_reached hreached), hx]
          exact .infinite
      | @finite y hy hreached' =>
          rw [mul_finite, hx, hy, bne_self_eq_false]
          refine atLeast_ofRatio (Nat.mul_pos unitsPerOne_pos unitsPerOne_pos) ?_
          calc 2 ^ (k + l) * (unitsPerOne * unitsPerOne)
              = 2 ^ k * unitsPerOne * (2 ^ l * unitsPerOne) := by ring
            _ ≤ x.units * y.units := Nat.mul_le_mul hreached hreached'

/-- The exponent of the square counts once for each time that it is still to be multiplied. -/
theorem atLeast_go {k l rounds rest : Nat} (hrest : rest < 2 ^ rounds) {square acc : Binary64}
    (hsquare : AtLeast k square) (hacc : AtLeast l acc) :
    AtLeast (l + k * rest) (powNat.go rounds square rest acc) := by
  induction rounds generalizing k l rest square acc with
  | zero =>
      obtain rfl : rest = 0 := by omega
      exact hacc
  | succ rounds ih =>
      have hnext : AtLeast (l + k * (rest % 2)) (if rest % 2 = 1 then acc.mul square else acc) := by
        split
        next hodd =>
          rw [hodd, Nat.mul_one]
          exact hacc.mul hsquare
        next heven =>
          rw [show rest % 2 = 0 by omega]
          exact hacc
      rw [powNat.go]
      split
      next hlast =>
        rwa [show rest % 2 = rest by omega] at hnext ⊢
      next =>
        have hless : rest / 2 < 2 ^ rounds := by
          rw [Nat.pow_succ] at hrest
          omega
        have hmore := ih hless (hsquare.mul hsquare) hnext
        have hexponent : l + k * (rest % 2) + (k + k) * (rest / 2) = l + k * rest := by
          calc l + k * (rest % 2) + (k + k) * (rest / 2)
              = l + k * (rest % 2 + 2 * (rest / 2)) := by ring
            _ = l + k * rest := by rw [Nat.mod_add_div]
        rwa [hexponent] at hmore

theorem atLeast_powNat {k power : Nat} (hpower : power < 2 ^ 64) {base : Binary64}
    (hbase : AtLeast k base) : AtLeast (k * power) (base.powNat power) := by
  have hone : AtLeast 0 one := by
    rw [one_eq]
    exact .finite rfl (by rw [units_unit, Nat.pow_zero, Nat.one_mul])
  have hgo := atLeast_go hpower hbase hone
  rwa [Nat.zero_add] at hgo

/-- No finite number is as great as two to the power of 1024. -/
theorem lt_of_reached {exponent : Nat} {x : Finite64}
    (h : 2 ^ exponent * unitsPerOne ≤ x.units) : exponent < 1024 := by
  obtain ⟨top, htop, hgreat⟩ : ∃ top, top = 1024 ∧
      unitsOfCode infinityCode ≤ 2 ^ top * unitsPerOne := ⟨1024, rfl, by decide +kernel⟩
  by_contra hge
  have hpow : 2 ^ top ≤ 2 ^ exponent := Nat.pow_le_pow_right (by decide) (by omega)
  exact Nat.lt_irrefl _ (calc x.units < unitsOfCode infinityCode := x.units_lt
    _ ≤ 2 ^ top * unitsPerOne := hgreat
    _ ≤ 2 ^ exponent * unitsPerOne := Nat.mul_le_mul_right _ hpow
    _ ≤ x.units := h)

end TokenGrammar.Binary64
