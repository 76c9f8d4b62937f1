import Mathlib.Data.Rat.Defs
import Mathlib.Tactic.FieldSimp
import Mathlib.Tactic.Linarith
import TokenGrammar.Boxer.Currency
import TokenGrammar.Proofs.Numeric.Power

/-!
# Amounts at their last place

An amount is rounded by scaling it with a power of ten, which is rounded itself, and so is the
product.  Main result: the rounded amount differs from zero where the exact amount is more than
one half of the last place, and where that is not so but the scaled amount is rounded to a half or
more.
-/

namespace TokenGrammar

open Binary64

/-- The exact magnitude of a number. -/
def Finite64.magnitude (x : Finite64) : ℚ := x.units / unitsPerOne

namespace Currency

variable {c : Currency} {x : Finite64}

/-! ## The scaled amount -/

/-- The code of one half. -/
def halfCode : Nat := 1022 * Nat.pow 2 52

theorem isNonzero_ofCode (negative : Bool) (code : Nat) :
    (ofCode negative code).isNonzero = (code != 0) := by
  unfold ofCode
  split
  next => rfl
  next hge =>
    have hne : code ≠ 0 := by
      rintro rfl
      exact hge (by decide)
    simp [isNonzero, hne]

/-- A scaled amount is rounded to a half or more from so little below a half on. -/
theorem halfCode_le_iff (num : Nat) :
    halfCode ≤ codeOfRatio num (unitsPerOne * unitsPerOne) ↔
      (2 ^ 54 - 1) * (unitsPerOne * unitsPerOne) ≤ 2 ^ 55 * num := by
  have hpos := unitsPerOne_pos
  have hmiddle : 2 ^ 54 * middle (halfCode - 1) = (2 ^ 54 - 1) * unitsPerOne := by decide +kernel
  have hodd : (halfCode - 1) % 2 = 1 := by decide
  have hsucc : halfCode ≤ codeOfRatio num (unitsPerOne * unitsPerOne) ↔
      halfCode - 1 < codeOfRatio num (unitsPerOne * unitsPerOne) := by
    have : 0 < halfCode := by decide
    omega
  rw [hsucc, lt_codeOfRatio_iff (Nat.mul_pos hpos hpos)]
  generalize middle (halfCode - 1) = m at *
  generalize unitsPerOne = u at *
  have hscaled : m * (u * u) ≤ 2 * (num * u) ↔ (2 ^ 54 - 1) * (u * u) ≤ 2 ^ 55 * num := by
    calc m * (u * u) ≤ 2 * (num * u) ↔ 2 ^ 54 * (m * (u * u)) ≤ 2 ^ 54 * (2 * (num * u)) :=
          (Nat.mul_le_mul_left_iff (Nat.two_pow_pos 54)).symm
      _ ↔ (2 ^ 54 - 1) * (u * u) * u ≤ 2 ^ 55 * num * u := by
          rw [← Nat.mul_assoc (2 ^ 54) m, hmiddle]
          ring_nf
      _ ↔ (2 ^ 54 - 1) * (u * u) ≤ 2 ^ 55 * num := Nat.mul_le_mul_right_iff hpos
  rw [← hscaled]
  omega

/-- The integer nearest to a magnitude differs from zero from one half on. -/
theorem roundHalfUp_pos_iff (code : Nat) :
    0 < roundHalfUp (unitsOfCode code) unitsPerOne ↔ halfCode ≤ code := by
  have hhalf : unitsPerOne = 2 * unitsOfCode halfCode := by decide +kernel
  have hle : unitsOfCode halfCode ≤ unitsOfCode code ↔ halfCode ≤ code :=
    unitsOfCode_strictMono.le_iff_le
  rw [lt_roundHalfUp_iff unitsPerOne_pos, ← hle]
  omega

/-- A positive integer is not rounded to zero when it is divided. -/
theorem codeOfRatio_whole_pos_iff (k : Nat) (s : Finite64) (hs : s.units ≠ 0) :
    0 < codeOfRatio (k * unitsPerOne) s.units ↔ 0 < k := by
  have hgreat : unitsOfCode infinityCode ≤ unitsPerOne * unitsPerOne := by decide +kernel
  have hless := s.units_lt
  have hfirst : middle 0 = 1 := by decide
  rw [lt_codeOfRatio_iff (Nat.pos_of_ne_zero hs), hfirst, Nat.mul_assoc]
  cases k with
  | zero => simp
  | succ k =>
      have hmore : unitsPerOne * unitsPerOne ≤ (k + 1) * (unitsPerOne * unitsPerOne) :=
        Nat.le_mul_of_pos_left _ (Nat.succ_pos k)
      omega

/-- The rounded amount differs from zero where the scaled one is rounded to a half or more. -/
theorem isNonzero_round_iff {s : Finite64} (hscale : c.scale = .finite s)
    (hs : unitsPerOne ≤ s.units) : (c.round (.finite x)).isNonzero = true ↔
      (2 ^ 54 - 1) * (unitsPerOne * unitsPerOne) ≤ 2 ^ 55 * (x.units * s.units) := by
  have hne : s.units ≠ 0 := by
    have := unitsPerOne_pos
    omega
  rw [← halfCode_le_iff, round, hscale, mul_finite, ofRatio]
  generalize codeOfRatio (x.units * s.units) (unitsPerOne * unitsPerOne) = code
  unfold ofCode
  split
  next hlt =>
    obtain ⟨r, hround, -, hunits⟩ := round_finite ⟨x.negative != s.negative, code, hlt⟩
    rw [hround, div_finite r hne, ofRatio, isNonzero_ofCode, hunits, bne_iff_ne,
      ← Nat.pos_iff_ne_zero, codeOfRatio_whole_pos_iff _ s hne]
    exact roundHalfUp_pos_iff code
  next hge =>
    have hhalf : halfCode ≤ code := Nat.le_trans (by decide) (Nat.le_of_not_lt hge)
    exact iff_of_true rfl hhalf

/-! ## The scale -/

/-- Ten to a power, by repeated squaring. -/
def tenTo (power : Nat) : Binary64 := (ofInt 10).powNat power

theorem scale_eq (hplaces : c.places ≤ maxPlaces) : c.scale = tenTo c.places := by
  have hbmod : Int.bmod c.places (Nat.pow 2 32) = c.places := by
    unfold maxPlaces at hplaces
    rw [Int.bmod_def, Nat.pow_eq]
    omega
  rw [scale, hbmod, powInt, if_neg (by omega)]
  rfl

theorem atLeast_tenTo {power : Nat} (h : power ≤ maxPlaces) :
    AtLeast (3 * power) (tenTo power) := by
  unfold maxPlaces at h
  exact atLeast_powNat (by omega) (atLeast_ofRatio Nat.one_pos (by decide))

/-- The greatest code at most one half of the last of so many places. -/
def halfPlace (places : Nat) : Nat :=
  let code := codeOfRatio 1 (2 * 10 ^ places)
  if 2 * (unitsOfCode code * 10 ^ places) ≤ unitsPerOne then code else code - 1

/-- Whether the numbers above one half of the last place are scaled to a half or more. -/
def keepsAbove (places : Nat) : Bool :=
  match tenTo places with
  | .finite s =>
    decide (2 * (unitsOfCode (halfPlace places) * 10 ^ places) ≤ unitsPerOne) &&
      decide ((2 ^ 54 - 1) * (unitsPerOne * unitsPerOne) ≤
        2 ^ 55 * (unitsOfCode (halfPlace places + 1) * s.units))
  | _ => true

theorem keepsAbove_of_lt : ∀ places < 342, keepsAbove places = true := by decide +kernel

/-- Whether the scale is exact. -/
def isExact (places : Nat) : Bool :=
  match tenTo places with
  | .finite s => s.units == 10 ^ places * unitsPerOne
  | _ => false

theorem isExact_of_le : ∀ places ≤ 22, isExact places = true := by decide +kernel

theorem units_scale {s : Finite64} (hplaces : c.places ≤ 22) (hscale : c.scale = .finite s) :
    s.units = 10 ^ c.places * unitsPerOne := by
  have hmax : c.places ≤ maxPlaces := Nat.le_trans hplaces (by decide)
  have hexact := isExact_of_le c.places hplaces
  rw [isExact, ← scale_eq hmax, hscale] at hexact
  exact beq_iff_eq.1 hexact

theorem exists_scale (hplaces : c.places ≤ 22) : ∃ s, c.scale = .finite s := by
  have hmax : c.places ≤ maxPlaces := Nat.le_trans hplaces (by decide)
  have hexact := isExact_of_le c.places hplaces
  rw [isExact, ← scale_eq hmax] at hexact
  split at hexact
  next s hs => exact ⟨s, hs⟩
  next => cases hexact

/-- More than a half of the last place is scaled to what is rounded to a half or more, also where
the scale is less than the power of ten. -/
theorem scaled_of_exceeds {s : Finite64} (hplaces : c.places ≤ maxPlaces)
    (hscale : c.scale = .finite s) (hexceeds : unitsPerOne < 2 * (x.units * 10 ^ c.places)) :
    (2 ^ 54 - 1) * (unitsPerOne * unitsPerOne) ≤ 2 ^ 55 * (x.units * s.units) := by
  have hscale' := (scale_eq hplaces).symm.trans hscale
  have hatLeast := atLeast_tenTo hplaces
  rw [hscale'] at hatLeast
  cases hatLeast with
  | finite _ hreached =>
    have hlt := lt_of_reached hreached
    have hkeeps := keepsAbove_of_lt c.places (by omega)
    simp only [keepsAbove, hscale', Bool.and_eq_true, decide_eq_true_eq] at hkeeps
    obtain ⟨hbelow, habove⟩ := hkeeps
    have hcode : halfPlace c.places < x.code := by
      rw [← unitsOfCode_strictMono.lt_iff_lt]
      by_contra hle
      have := Nat.mul_le_mul_right (10 ^ c.places) (Nat.le_of_not_lt hle)
      change x.units * 10 ^ c.places ≤ _ at this
      omega
    have hunits : unitsOfCode (halfPlace c.places + 1) ≤ x.units :=
      unitsOfCode_strictMono.monotone hcode
    exact habove.trans (Nat.mul_le_mul_left _ (Nat.mul_le_mul_right _ hunits))

/-! ## Two ways of rounding -/

/-- The exact amount is at most one half of the last place, and so rounded to zero, while the
scaled one is rounded to a half or more, and so to one. -/
def RoundsApart (c : Currency) (x : Finite64) : Prop :=
  x.magnitude * 10 ^ c.places ≤ 1 / 2 ∧
    ∀ s, c.scale = .finite s → 1 / 2 - 1 / 2 ^ 55 ≤ x.magnitude * s.magnitude

theorem exceeds_iff (places : Nat) (x : Finite64) :
    unitsPerOne < 2 * (x.units * 10 ^ places) ↔ 1 / 2 < x.magnitude * 10 ^ places := by
  have hpos : (0 : ℚ) < unitsPerOne := by exact_mod_cast unitsPerOne_pos
  rw [Finite64.magnitude, div_mul_eq_mul_div, div_lt_div_iff₀ two_pos hpos, ← Nat.cast_lt (α := ℚ)]
  push_cast
  rw [one_mul, mul_comm (2 : ℚ)]

theorem scaled_iff (x s : Finite64) :
    (2 ^ 54 - 1) * (unitsPerOne * unitsPerOne) ≤ 2 ^ 55 * (x.units * s.units) ↔
      1 / 2 - 1 / 2 ^ 55 ≤ x.magnitude * s.magnitude := by
  have hpos : (0 : ℚ) < unitsPerOne := by exact_mod_cast unitsPerOne_pos
  have hleft : (1 / 2 - 1 / 2 ^ 55 : ℚ) = (2 ^ 54 - 1) / 2 ^ 55 := by norm_num
  rw [hleft, Finite64.magnitude, Finite64.magnitude, div_mul_div_comm,
    div_le_div_iff₀ (by positivity) (mul_pos hpos hpos), ← Nat.cast_le (α := ℚ)]
  push_cast
  constructor <;> intro h <;> linarith

/-- An amount other than zero whose scale is infinite is not rounded to zero. -/
theorem isNonzero_round_of_infinite (hscale : c.scale = .infinite false) (hx : x.units ≠ 0) :
    (c.round (.finite x)).isNonzero = true := by
  rw [round, hscale, mul_infinite hx]
  rfl

/-- The rounded amount differs from zero where the digits do, and where the two part. -/
theorem isNonzero_round_iff_exceeds (hplaces : c.places ≤ maxPlaces) (hx : x.units ≠ 0) :
    (c.round (.finite x)).isNonzero = true ↔
      unitsPerOne < 2 * (x.units * 10 ^ c.places) ∨ RoundsApart c x := by
  have hnot : ¬ unitsPerOne < 2 * (x.units * 10 ^ c.places) ↔
      x.magnitude * 10 ^ c.places ≤ 1 / 2 := by rw [exceeds_iff, not_lt]
  have hatLeast := atLeast_tenTo hplaces
  rw [← scale_eq hplaces] at hatLeast
  generalize hscale : c.scale = scale at hatLeast
  cases hatLeast with
  | infinite =>
    refine iff_of_true (isNonzero_round_of_infinite hscale hx) ?_
    rw [RoundsApart, ← hnot, hscale]
    by_cases hexceeds : unitsPerOne < 2 * (x.units * 10 ^ c.places)
    · exact .inl hexceeds
    · exact .inr ⟨hexceeds, fun s hs => by cases hs⟩
  | @finite s _ hreached =>
    have hone : unitsPerOne ≤ s.units :=
      Nat.le_trans (Nat.le_mul_of_pos_left _ (Nat.two_pow_pos _)) hreached
    have hapart : RoundsApart c x ↔ ¬ unitsPerOne < 2 * (x.units * 10 ^ c.places) ∧
        (c.round (.finite x)).isNonzero = true := by
      rw [RoundsApart, ← hnot, isNonzero_round_iff hscale hone, scaled_iff, hscale]
      simp
    rw [hapart]
    constructor
    · intro hnonzero
      by_cases hexceeds : unitsPerOne < 2 * (x.units * 10 ^ c.places)
      · exact .inl hexceeds
      · exact .inr ⟨hexceeds, hnonzero⟩
    · rintro (hexceeds | ⟨-, hnonzero⟩)
      · exact (isNonzero_round_iff hscale hone).2 (scaled_of_exceeds hplaces hscale hexceeds)
      · exact hnonzero

end Currency

end TokenGrammar
