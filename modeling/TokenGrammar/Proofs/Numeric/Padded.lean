import Mathlib.Data.List.Forall2
import Mathlib.Data.Char
import Mathlib.Tactic.Ring
import TokenGrammar.Proofs.Numeric.Decimal

/-!
# Numbers of a fixed width

A number with zeros in front up to a width has exactly that width if it is not too great for
it, and reads back.  Texts with digits at the same places and the same characters elsewhere
come in the order of the numbers that their digits are read as.
-/

namespace TokenGrammar.Decimal

/-! ## Digits -/

theorem isDigit_eq_true_iff {c : Char} :
    isDigit c = true ↔ ∃ digit < 10, digitValue? c = some digit ∧ c = digitChar digit := by
  constructor
  · intro h
    have hrange : '0'.toNat ≤ c.toNat ∧ c.toNat ≤ '9'.toNat := by
      by_contra hout
      rw [isDigit, digitValue?, if_neg hout] at h
      cases h
    have hlt : c.toNat - '0'.toNat < 10 := Nat.lt_succ_of_le (Nat.sub_le_sub_right hrange.2 _)
    refine ⟨c.toNat - '0'.toNat, hlt, if_pos hrange, ?_⟩
    rw [digitChar, Nat.add_sub_cancel' hrange.1, Char.ofNat_toNat]
  · rintro ⟨digit, hlt, -, rfl⟩
    exact isDigit_digitChar hlt

theorem readDigit_of_not_isDigit (n : Nat) {c : Char} (h : isDigit c = false) :
    readDigit n c = n := by
  unfold isDigit at h
  rw [readDigit, Option.isSome_eq_false_iff.1 h |> Option.isNone_iff_eq_none.1]

theorem foldl_readDigit_of_digits {ds : List Char} (h : ∀ c ∈ ds, isDigit c = true) (n : Nat) :
    ds.foldl readDigit n = n * 10 ^ ds.length + natOfDigits ds := by
  induction ds generalizing n with
  | nil => simp [natOfDigits]
  | cons c ds ih =>
      obtain ⟨digit, hlt, -, rfl⟩ := isDigit_eq_true_iff.1 (h c (List.mem_cons_self ..))
      have hrest := ih fun d hd => h d (List.mem_cons_of_mem _ hd)
      change ds.foldl readDigit (readDigit n _) = _ + ds.foldl readDigit (readDigit 0 _)
      rw [readDigit_digitChar n hlt, readDigit_digitChar 0 hlt, hrest, hrest, List.length_cons]
      ring

theorem natOfDigits_lt {ds : List Char} (h : ∀ c ∈ ds, isDigit c = true) :
    natOfDigits ds < 10 ^ ds.length := by
  induction ds with
  | nil => simp [natOfDigits]
  | cons c ds ih =>
      obtain ⟨digit, hlt, -, rfl⟩ := isDigit_eq_true_iff.1 (h c (List.mem_cons_self ..))
      have hds : ∀ d ∈ ds, isDigit d = true := fun d hd => h d (List.mem_cons_of_mem _ hd)
      have hrest := ih hds
      change ds.foldl readDigit (readDigit 0 _) < _
      rw [readDigit_digitChar 0 hlt, foldl_readDigit_of_digits hds, List.length_cons, Nat.pow_succ]
      have hdigit := Nat.mul_le_mul_right (10 ^ ds.length) (show 10 * 0 + digit ≤ 9 by omega)
      omega

/-! ## Numbers with zeros in front -/

theorem length_natDigitsOnto_le {rounds n width : Nat} (acc : List Char) (h : n < 10 ^ width)
    (hwidth : 0 < width) : (natDigitsOnto rounds n acc).length ≤ width + acc.length := by
  induction rounds generalizing n width acc with
  | zero => exact Nat.le_add_left ..
  | succ rounds ih =>
      rw [natDigitsOnto]
      split
      next =>
        rw [List.length_cons]
        omega
      next hge =>
        obtain ⟨width, rfl⟩ := Nat.exists_eq_add_of_le' hwidth
        have hpos : 0 < width := by
          by_contra hzero
          obtain rfl : width = 0 := by omega
          simp at h
          omega
        have hrest : n / 10 < 10 ^ width := by
          rw [Nat.pow_succ] at h
          omega
        have hlength := ih (digitChar (n % 10) :: acc) hrest hpos
        rw [List.length_cons] at hlength
        omega

theorem length_natText_le {n width : Nat} (h : n < 10 ^ width) (hwidth : 0 < width) :
    (natText n).length ≤ width :=
  length_natDigitsOnto_le [] h hwidth

/-- The text of a number with zeros in front up to a width. -/
def zeroPadded (width n : Nat) : List Char := padLeft '0' width (natText n)

theorem isDigit_of_mem_zeroPadded {width n : Nat} {c : Char} (h : c ∈ zeroPadded width n) :
    isDigit c = true := by
  rcases List.mem_append.1 h with hzero | hdigit
  · rw [List.eq_of_mem_replicate hzero]
    rfl
  · exact isDigit_of_mem_natText hdigit

theorem length_zeroPadded {width n : Nat} (h : n < 10 ^ width) (hwidth : 0 < width) :
    (zeroPadded width n).length = width := by
  have hlength := length_natText_le h hwidth
  rw [zeroPadded, padLeft, List.length_append, List.length_replicate]
  omega

theorem exists_cons_zeroPadded {width n : Nat} (hwidth : 0 < width) (h : n < 10 ^ width) :
    ∃ d ds, zeroPadded width n = d :: ds ∧ isDigit d = true := by
  obtain ⟨d, ds, hcons⟩ := List.exists_cons_of_length_pos
    (show 0 < (zeroPadded width n).length by rwa [length_zeroPadded h hwidth])
  exact ⟨d, ds, hcons, isDigit_of_mem_zeroPadded (hcons ▸ List.mem_cons_self ..)⟩

theorem foldl_readDigit_zeros (count : Nat) :
    (List.replicate count '0').foldl readDigit 0 = 0 := by
  induction count with
  | zero => rfl
  | succ count ih => exact ih

theorem natOfDigits_zeroPadded (width n : Nat) : natOfDigits (zeroPadded width n) = n := by
  change (List.replicate _ '0' ++ natText n).foldl readDigit 0 = n
  rw [List.foldl_append, foldl_readDigit_zeros]
  exact natOfDigits_natText n

theorem foldl_readDigit_zeroPadded {width n : Nat} (h : n < 10 ^ width) (hwidth : 0 < width)
    (start : Nat) : (zeroPadded width n).foldl readDigit start = start * 10 ^ width + n := by
  rw [foldl_readDigit_of_digits fun _ => isDigit_of_mem_zeroPadded, length_zeroPadded h hwidth,
    natOfDigits_zeroPadded]

/-! ## A fixed number of places -/

/-- The digits of a fraction behind a point, and nothing if there are none. -/
def pointed (ds : List Char) : List Char := if ds = [] then [] else '.' :: ds

/-- The text of a magnitude at a fixed number of places. -/
def fixedText (units places : Nat) : List Char :=
  (fixedParts units places).1 ++ pointed (fixedParts units places).2

theorem fixedParts_append (units places : Nat) :
    (fixedParts units places).1 ++ (fixedParts units places).2 = zeroPadded (places + 1)
      (Binary64.roundHalfEven (units * Nat.pow 10 places) Binary64.unitsPerOne) :=
  List.take_append_drop ..

theorem isDigit_of_mem_fixedParts {units places : Nat} {c : Char}
    (h : c ∈ (fixedParts units places).1 ∨ c ∈ (fixedParts units places).2) :
    isDigit c = true := by
  have hmem := List.mem_append.2 h
  rw [fixedParts_append] at hmem
  exact isDigit_of_mem_zeroPadded hmem

/-! ## Texts of one shape -/

/-- Two characters that are the same, or both of them digits. -/
def SameSort (c d : Char) : Prop := c = d ∨ isDigit c = true ∧ isDigit d = true

/-- Two texts with digits at the same places and the same characters elsewhere. -/
def SameShape (as bs : List Char) : Prop := List.Forall₂ SameSort as bs

theorem SameShape.append {as bs cs ds : List Char} (h : SameShape as bs) (h' : SameShape cs ds) :
    SameShape (as ++ cs) (bs ++ ds) :=
  List.rel_append h h'

theorem SameShape.cons {as bs : List Char} (c : Char) (h : SameShape as bs) :
    SameShape (c :: as) (c :: bs) :=
  List.Forall₂.cons (Or.inl rfl) h

theorem sameShape_of_digits {as bs : List Char} (ha : ∀ c ∈ as, isDigit c = true)
    (hb : ∀ c ∈ bs, isDigit c = true) (h : as.length = bs.length) : SameShape as bs :=
  List.forall₂_iff_get.2 ⟨h, fun _ hi hj =>
    .inr ⟨ha _ (List.getElem_mem hi), hb _ (List.getElem_mem hj)⟩⟩

theorem sameShape_zeroPadded {width m n : Nat} (hwidth : 0 < width) (hm : m < 10 ^ width)
    (hn : n < 10 ^ width) : SameShape (zeroPadded width m) (zeroPadded width n) :=
  sameShape_of_digits (fun _ => isDigit_of_mem_zeroPadded) (fun _ => isDigit_of_mem_zeroPadded)
    ((length_zeroPadded hm hwidth).trans (length_zeroPadded hn hwidth).symm)

/-- What was read first counts for more than all that follows. -/
theorem SameShape.foldl_lt {as bs : List Char} (h : SameShape as bs) {m n : Nat} (hlt : m < n) :
    as.foldl readDigit m < bs.foldl readDigit n := by
  induction h generalizing m n with
  | nil => exact hlt
  | @cons c d as bs hsort _ ih =>
      apply ih
      rcases hsort with rfl | ⟨hc, hd⟩
      · unfold readDigit
        split <;> omega
      · obtain ⟨x, hx, -, rfl⟩ := isDigit_eq_true_iff.1 hc
        obtain ⟨y, hy, -, rfl⟩ := isDigit_eq_true_iff.1 hd
        rw [readDigit_digitChar m hx, readDigit_digitChar n hy]
        omega

theorem digitChar_lt {x y : Nat} (hy : y < 10) (h : x < y) : digitChar x < digitChar y := by
  revert x
  revert y
  decide

/-- Texts of one shape come in the order of the numbers that they are read as. -/
theorem SameShape.compare {as bs : List Char} (h : SameShape as bs) (n : Nat) :
    as = bs ∨ (as < bs ∧ as.foldl readDigit n < bs.foldl readDigit n) ∨
      (bs < as ∧ bs.foldl readDigit n < as.foldl readDigit n) := by
  induction h generalizing n with
  | nil => exact .inl rfl
  | @cons c d as bs hsort hrest ih =>
      have hback : SameShape bs as := hrest.flip.imp fun _ _ h => h.elim (.inl ·.symm) (.inr ·.symm)
      have hsame : c = d → c :: as = d :: bs ∨
          (c :: as < d :: bs ∧ (c :: as).foldl readDigit n < (d :: bs).foldl readDigit n) ∨
          (d :: bs < c :: as ∧ (d :: bs).foldl readDigit n < (c :: as).foldl readDigit n) := by
        rintro rfl
        simpa [List.cons_lt_cons_iff] using ih (readDigit n c)
      rcases hsort with heq | ⟨hc, hd⟩
      · exact hsame heq
      · obtain ⟨x, hx, -, rfl⟩ := isDigit_eq_true_iff.1 hc
        obtain ⟨y, hy, -, rfl⟩ := isDigit_eq_true_iff.1 hd
        simp only [List.foldl_cons, readDigit_digitChar n hx, readDigit_digitChar n hy] at hsame ⊢
        rcases Nat.lt_trichotomy x y with hxy | rfl | hyx
        · exact .inr (.inl ⟨List.cons_lt_cons_iff.2 (.inl (digitChar_lt hy hxy)),
            SameShape.foldl_lt hrest (by omega)⟩)
        · exact hsame rfl
        · exact .inr (.inr ⟨List.cons_lt_cons_iff.2 (.inl (digitChar_lt hx hyx)),
            hback.foldl_lt (by omega)⟩)

theorem SameShape.lt_of_natOfDigits_lt {as bs : List Char} (h : SameShape as bs)
    (hlt : natOfDigits as < natOfDigits bs) : as < bs := by
  have hlt' : as.foldl readDigit 0 < bs.foldl readDigit 0 := hlt
  rcases h.compare 0 with rfl | ⟨hless, -⟩ | ⟨-, hmore⟩
  · omega
  · exact hless
  · omega

theorem SameShape.eq_of_natOfDigits_eq {as bs : List Char} (h : SameShape as bs)
    (heq : natOfDigits as = natOfDigits bs) : as = bs := by
  have heq' : as.foldl readDigit 0 = bs.foldl readDigit 0 := heq
  rcases h.compare 0 with rfl | ⟨-, hless⟩ | ⟨-, hmore⟩
  · rfl
  · omega
  · omega

/-- A run of digits is the text of its number at its own width. -/
theorem eq_zeroPadded {ds : List Char} (h : ∀ c ∈ ds, isDigit c = true) (hpos : 0 < ds.length) :
    ds = zeroPadded ds.length (natOfDigits ds) := by
  have hlength := length_zeroPadded (natOfDigits_lt h) hpos
  have hshape := sameShape_of_digits h (fun _ => isDigit_of_mem_zeroPadded) hlength.symm
  apply hshape.eq_of_natOfDigits_eq
  rw [natOfDigits_zeroPadded]

end TokenGrammar.Decimal
