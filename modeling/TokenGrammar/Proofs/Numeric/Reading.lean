import TokenGrammar.Proofs.Numeric.Shortest

/-!
# Numbers read from their text

Main results: the text of an integer is read as that integer, and the text of a finite number as
that number, whichever way its digits were laid out.
-/

namespace TokenGrammar.Decimal

open Binary64

/-! ## Integers -/

theorem unsigned?_of_digits {ds : List Char} (hne : ds ≠ []) (hds : ∀ c ∈ ds, isDigit c = true) :
    readInteger?.unsigned? ds = some (natOfDigits ds) := by
  have hall : ds.all isDigit = true := List.all_eq_true.2 hds
  simp [readInteger?.unsigned?, hne, hall]

theorem unsigned?_natText (n : Nat) : readInteger?.unsigned? (natText n) = some n := by
  rw [unsigned?_of_digits (natText_ne_nil n) fun _ => isDigit_of_mem_natText, natOfDigits_natText]

/-- A text without a sign in front is read as it is. -/
theorem readInteger?_of_unsigned {cs : List Char} {n : Nat} (hminus : cs.head? ≠ some '-')
    (hplus : cs.head? ≠ some '+') (h : readInteger?.unsigned? cs = some n) :
    readInteger? cs = some (n : Int) := by
  unfold readInteger?
  split
  next => exact (hminus rfl).elim
  next => exact (hplus rfl).elim
  next =>
    rw [h]
    rfl

/-- A text with another character behind the first is no integer. -/
theorem readInteger?_eq_none {cs : List Char} (h : ∃ c ∈ cs.drop 1, isDigit c = false) :
    readInteger? cs = none := by
  obtain ⟨c, hmem, hc⟩ := h
  have hnone {ds : List Char} (hds : c ∈ ds) : readInteger?.unsigned? ds = none := by
    have hall : ds.all isDigit = false := List.all_eq_false.2 ⟨c, hds, by simp [hc]⟩
    simp [readInteger?.unsigned?, hall]
  unfold readInteger?
  split
  next ds =>
    rw [show readInteger?.unsigned? ds = none from hnone hmem]
    rfl
  next ds =>
    rw [show readInteger?.unsigned? ds = none from hnone hmem]
    rfl
  next =>
    rw [hnone (List.mem_of_mem_drop hmem)]
    rfl

theorem head?_ne_of_digits {cs : List Char} (h : ∀ c ∈ cs.head?, isDigit c = true) {d : Char}
    (hd : isDigit d = false) : cs.head? ≠ some d := by
  intro hhead
  rw [h d hhead] at hd
  cases hd

theorem isDigit_of_head?_natText {n : Nat} {c : Char} (h : c ∈ (natText n).head?) :
    isDigit c = true :=
  isDigit_of_mem_natText (List.mem_of_head? h)

theorem readInteger?_intText (i : Int) : readInteger? (intText i) = some i := by
  have hdigits (n : Nat) : ∀ c ∈ (natText n).head?, isDigit c = true :=
    fun _ => isDigit_of_head?_natText
  unfold intText
  split
  next hneg =>
    rw [readInteger?, unsigned?_natText]
    exact congrArg some (show -(i.natAbs : Int) = i by omega)
  next hpos =>
    rw [readInteger?_of_unsigned (head?_ne_of_digits (hdigits _) rfl)
      (head?_ne_of_digits (hdigits _) rfl) (unsigned?_natText _)]
    exact congrArg some (by omega)

/-! ## Decimals -/

theorem takeWhile_digits {ds rest : List Char} (hds : ∀ c ∈ ds, isDigit c = true)
    (hrest : ∀ c ∈ rest.head?, isDigit c = false) :
    (ds ++ rest).takeWhile isDigit = ds ∧ (ds ++ rest).dropWhile isDigit = rest := by
  rw [List.takeWhile_append_of_pos hds, List.dropWhile_append_of_pos hds]
  cases rest with
  | nil => simp
  | cons c rest => simp [hrest c rfl]

theorem isDigit_of_head?_pointed {fraction tail : List Char}
    (htail : ∀ c ∈ tail.head?, c = 'e') :
    ∀ c ∈ (pointed fraction ++ tail).head?, isDigit c = false := by
  intro c hc
  unfold pointed at hc
  split at hc
  next =>
    rw [htail c hc]
    rfl
  next =>
    obtain rfl := Option.some.inj hc
    rfl

/-- What follows the digits of a decimal is read as fraction and exponent. -/
theorem readDecimal?_text {whole fraction tail : List Char} (hne : whole ≠ [])
    (hwhole : ∀ c ∈ whole, isDigit c = true) (hfraction : ∀ c ∈ fraction, isDigit c = true)
    (htail : ∀ c ∈ tail.head?, c = 'e') :
    readDecimal? (whole ++ (pointed fraction ++ tail)) =
      (if tail = [] then some 0 else readInteger? (tail.drop 1)).map fun power =>
        ⟨natOfDigits (whole ++ fraction), power - fraction.length⟩ := by
  obtain ⟨htake, hdrop⟩ := takeWhile_digits hwhole (isDigit_of_head?_pointed htail)
  have hempty : whole.isEmpty = false := by simpa using hne
  have hend : ∀ c ∈ tail.head?, isDigit c = false := fun c hc => by rw [htail c hc]; rfl
  obtain ⟨htake', hdrop'⟩ := takeWhile_digits hfraction hend
  unfold readDecimal?
  rw [htake, hdrop]
  cases fraction with
  | nil =>
      cases tail with
      | nil => simp [pointed, hempty]
      | cons e power =>
          obtain rfl := htail e rfl
          simp [pointed, hempty]
  | cons d fraction =>
      simp only [pointed, List.cons_ne_nil, if_false, List.cons_append, hempty]
      rw [← List.cons_append, htake', hdrop']
      cases tail with
      | nil => simp
      | cons e power =>
          obtain rfl := htail e rfl
          simp

/-- The exponent of a decimal, with a sign in front. -/
def powerText (lead : Int) : List Char :=
  'e' :: (if lead < 0 then '-' else '+') :: natText lead.natAbs

theorem powerText_ne_nil (lead : Int) : powerText lead ≠ [] := List.cons_ne_nil _ _

theorem readInteger?_power (lead : Int) : readInteger? ((powerText lead).drop 1) = some lead := by
  change readInteger? ((if lead < 0 then '-' else '+') :: natText lead.natAbs) = some lead
  split
  next hneg =>
    rw [readInteger?, unsigned?_natText]
    exact congrArg some (show -(lead.natAbs : Int) = lead by omega)
  next hpos =>
    rw [readInteger?, unsigned?_natText]
    exact congrArg some (show (lead.natAbs : Int) = lead by omega)

/-! ## The layout of a decimal -/

/-- Digits with a fraction, an exponent or both, that are read as a decimal of this code. -/
structure LaidOut (code : Nat) (whole fraction tail : List Char) : Prop where
  ne_nil : whole ≠ []
  whole_digits : ∀ c ∈ whole, isDigit c = true
  fraction_digits : ∀ c ∈ fraction, isDigit c = true
  read : tail = [] ∧ fraction ≠ [] ∧
      codeOf ⟨natOfDigits (whole ++ fraction), -fraction.length⟩ = code ∨
    ∃ lead, tail = powerText lead ∧
      codeOf ⟨natOfDigits (whole ++ fraction), lead - fraction.length⟩ = code

theorem LaidOut.fraction_ne_nil {code : Nat} {whole fraction : List Char}
    (h : LaidOut code whole fraction []) : fraction ≠ [] := by
  rcases h.read with ⟨-, hne, -⟩ | ⟨lead, hnil, -⟩
  · exact hne
  · cases hnil

theorem pointed_of_ne_nil {ds : List Char} (h : ds ≠ []) : pointed ds = '.' :: ds := if_neg h

theorem pointed_eq (ds : List Char) : (if ds.isEmpty then [] else '.' :: ds) = pointed ds := by
  simp [pointed]

theorem natOfDigits_zeros_append (zeros : Nat) (ds : List Char) :
    natOfDigits (List.replicate zeros '0' ++ ds) = natOfDigits ds := by
  change (List.replicate zeros '0' ++ ds).foldl readDigit 0 = _
  rw [List.foldl_append, foldl_readDigit_zeros]
  rfl

theorem isDigit_of_mem_zeros {count : Nat} {c : Char} (h : c ∈ List.replicate count '0') :
    isDigit c = true := by
  rw [List.eq_of_mem_replicate h]
  rfl

theorem isDigit_of_mem_zero {c : Char} (h : c ∈ ['0']) : isDigit c = true :=
  isDigit_of_mem_zeros (show c ∈ List.replicate 1 '0' from h)

theorem natOfDigits_append_zeros (zeros : Nat) (ds : List Char) :
    natOfDigits (ds ++ List.replicate zeros '0') = natOfDigits ds * 10 ^ zeros := by
  change (ds ++ List.replicate zeros '0').foldl readDigit 0 = _
  rw [List.foldl_append, foldl_readDigit_of_digits (fun _ => isDigit_of_mem_zeros),
    List.length_replicate,
    show natOfDigits (List.replicate zeros '0') = 0 from foldl_readDigit_zeros zeros]
  rfl

/-- Zeros stand for the exponent, and one more behind the point. -/
theorem laidOut_whole {d : Decimal} (h : 0 ≤ d.exponent) :
    LaidOut (codeOf d) (natText d.digits ++ List.replicate d.exponent.toNat '0')
      (List.replicate 1 '0') [] := by
  refine ⟨by simp [natText_ne_nil], ?_, fun _ => isDigit_of_mem_zeros, .inl ⟨rfl, by simp, ?_⟩⟩
  · rw [List.forall_mem_append]
    exact ⟨fun _ => isDigit_of_mem_natText, fun _ => isDigit_of_mem_zeros⟩
  · rw [List.append_assoc, List.replicate_append_replicate, natOfDigits_append_zeros,
      natOfDigits_natText, List.length_replicate,
      ← codeOf_mul_pow d.digits (d.exponent.toNat + 1) d.exponent]
    congr 2
    omega

/-- The point stands among the digits. -/
theorem laidOut_among (d : Decimal) (point : Nat) (hpos : 0 < point)
    (hpoint : (natText d.digits).length + d.exponent = point) (h : d.exponent < 0) :
    LaidOut (codeOf d) ((natText d.digits).take point) ((natText d.digits).drop point) [] := by
  have hlength := length_natText_pos d.digits
  refine ⟨?_, fun c hc => isDigit_of_mem_natText (List.mem_of_mem_take hc),
    fun c hc => isDigit_of_mem_natText (List.mem_of_mem_drop hc), .inl ⟨rfl, ?_, ?_⟩⟩
  · rw [← List.length_pos_iff, List.length_take]
    omega
  · rw [← List.length_pos_iff, List.length_drop]
    omega
  · rw [List.take_append_drop, natOfDigits_natText, List.length_drop]
    congr 2
    omega

/-- Zeros stand between the point and the digits. -/
theorem laidOut_behind (d : Decimal) (zeros : Nat)
    (hzeros : (natText d.digits).length + d.exponent = -zeros) :
    LaidOut (codeOf d) ['0'] (List.replicate zeros '0' ++ natText d.digits) [] := by
  refine ⟨List.cons_ne_nil _ _, fun _ => isDigit_of_mem_zero, ?_,
    .inl ⟨rfl, by simp [natText_ne_nil], ?_⟩⟩
  · rw [List.forall_mem_append]
    exact ⟨fun _ => isDigit_of_mem_zeros, fun _ => isDigit_of_mem_natText⟩
  · rw [← List.append_assoc]
    change codeOf ⟨natOfDigits (List.replicate (zeros + 1) '0' ++ _), _⟩ = _
    rw [natOfDigits_zeros_append, natOfDigits_natText, List.length_append, List.length_replicate]
    congr 2
    omega

/-- One digit stands in front of the point, and the exponent behind the digits. -/
theorem laidOut_power (d : Decimal) :
    LaidOut (codeOf d) ((natText d.digits).take 1) ((natText d.digits).drop 1)
      (powerText ((natText d.digits).length + d.exponent - 1)) := by
  have hlength := length_natText_pos d.digits
  refine ⟨?_, fun c hc => isDigit_of_mem_natText (List.mem_of_mem_take hc),
    fun c hc => isDigit_of_mem_natText (List.mem_of_mem_drop hc), .inr ⟨_, rfl, ?_⟩⟩
  · rw [← List.length_pos_iff, List.length_take]
    omega
  · rw [List.take_append_drop, natOfDigits_natText, List.length_drop]
    congr 2
    omega

theorem exists_laidOut (d : Decimal) : ∃ whole fraction tail,
    layout d = whole ++ (pointed fraction ++ tail) ∧ LaidOut (codeOf d) whole fraction tail := by
  unfold layout
  dsimp only
  split
  next =>
    split
    next hwhole => exact ⟨_, _, _, by simp [pointed], laidOut_whole hwhole⟩
    next hexponent =>
      split
      next hpoint =>
        have hamong := laidOut_among d ((natText d.digits).length + d.exponent).toNat (by omega)
          (by omega) (by omega)
        refine ⟨_, _, _, ?_, hamong⟩
        rw [pointed_of_ne_nil hamong.fraction_ne_nil, List.append_nil]
      next hpoint =>
        have hbehind := laidOut_behind d (-((natText d.digits).length + d.exponent)).toNat
          (by omega)
        refine ⟨_, _, _, ?_, hbehind⟩
        rw [pointed_of_ne_nil hbehind.fraction_ne_nil, List.append_nil]
        rfl
  next =>
    refine ⟨_, _, _, ?_, laidOut_power d⟩
    rw [pointed_eq, List.append_assoc]
    rfl

/-! ## Reading a laid out decimal -/

section

variable {code : Nat} {whole fraction tail : List Char}

theorem LaidOut.head_of_tail (h : LaidOut code whole fraction tail) :
    ∀ c ∈ tail.head?, c = 'e' := by
  rcases h.read with ⟨rfl, -, -⟩ | ⟨lead, rfl, -⟩
  · intro c hc
    cases hc
  · intro c hc
    exact (Option.some.inj hc).symm

theorem LaidOut.readDecimal? (h : LaidOut code whole fraction tail) :
    ∃ d, readDecimal? (whole ++ (pointed fraction ++ tail)) = some d ∧ codeOf d = code := by
  rw [readDecimal?_text h.ne_nil h.whole_digits h.fraction_digits h.head_of_tail]
  rcases h.read with ⟨rfl, -, hcode⟩ | ⟨lead, rfl, hcode⟩
  · exact ⟨_, rfl, by rwa [← Int.zero_sub] at hcode⟩
  · rw [if_neg (powerText_ne_nil lead), readInteger?_power]
    exact ⟨_, rfl, hcode⟩

/-- A point or the mark of an exponent stands behind the first digit. -/
theorem LaidOut.exists_mark (h : LaidOut code whole fraction tail) :
    ∃ c ∈ (whole ++ (pointed fraction ++ tail)).drop 1, isDigit c = false := by
  obtain ⟨first, rest, rfl⟩ := List.exists_cons_of_ne_nil h.ne_nil
  rcases h.read with ⟨rfl, hne, -⟩ | ⟨lead, rfl, -⟩
  · exact ⟨'.', by simp [pointed_of_ne_nil hne], rfl⟩
  · exact ⟨'e', by simp [powerText], rfl⟩

theorem LaidOut.isDigit_head (h : LaidOut code whole fraction tail) :
    ∃ first rest, whole ++ (pointed fraction ++ tail) = first :: rest ∧ isDigit first = true := by
  obtain ⟨first, rest, rfl⟩ := List.exists_cons_of_ne_nil h.ne_nil
  exact ⟨first, _, rfl, h.whole_digits first (List.mem_cons_self ..)⟩

/-- A text with a digit in front is none of the words for what is not finite. -/
theorem magnitude?_of_digit {c : Char} (hc : isDigit c = true) (cs : List Char) (negative : Bool) :
    readBinary64?.magnitude? negative (c :: cs) =
      (Decimal.readDecimal? (c :: cs)).map (toBinary64 negative) := by
  have hletter : c.toLower ≠ 'i' ∧ c.toLower ≠ 'n' := by
    obtain ⟨digit, hlt, -, rfl⟩ := isDigit_eq_true_iff.1 hc
    revert digit
    decide
  have hword {d : Char} {ds : List Char} (hd : c.toLower ≠ d) :
      String.ofList ((c :: cs).map Char.toLower) ≠ String.ofList (d :: ds) := by
    intro heq
    exact hd (List.cons.inj (String.ofList_injective heq)).1
  unfold readBinary64?.magnitude?
  dsimp only
  rw [if_neg (not_or.2 ⟨hword hletter.1, hword hletter.1⟩), if_neg (hword hletter.2)]

end

/-! ## Finite numbers -/

/-- The text of a finite number behind its sign. -/
def magnitudeText (x : Finite64) : List Char :=
  if x.code = 0 then ['0', '.', '0'] else layout (shortest x.code)

theorem exists_laidOut_magnitudeText (x : Finite64) : ∃ whole fraction tail,
    magnitudeText x = whole ++ (pointed fraction ++ tail) ∧
      LaidOut x.code whole fraction tail := by
  unfold magnitudeText
  split
  next hzero =>
    rw [hzero]
    exact ⟨['0'], ['0'], [], rfl, List.cons_ne_nil _ _, fun _ => isDigit_of_mem_zero,
      fun _ => isDigit_of_mem_zero, .inl ⟨rfl, List.cons_ne_nil _ _, by decide⟩⟩
  next hne =>
    have hlaid := exists_laidOut (shortest x.code)
    rwa [codeOf_shortest hne x.code_lt] at hlaid

theorem isDigit_head_magnitudeText (x : Finite64) :
    ∃ first rest, magnitudeText x = first :: rest ∧ isDigit first = true := by
  obtain ⟨whole, fraction, tail, htext, hlaid⟩ := exists_laidOut_magnitudeText x
  rw [htext]
  exact hlaid.isDigit_head

theorem magnitude?_magnitudeText (x : Finite64) :
    readBinary64?.magnitude? x.negative (magnitudeText x) = some (.finite x) := by
  obtain ⟨first, rest, hcons, hfirst⟩ := isDigit_head_magnitudeText x
  obtain ⟨whole, fraction, tail, htext, hlaid⟩ := exists_laidOut_magnitudeText x
  obtain ⟨d, hread, hcode⟩ := hlaid.readDecimal?
  rw [hcons, magnitude?_of_digit hfirst, ← hcons, htext, hread, Option.map_some, toBinary64_eq,
    hcode, ofCode_code]

/-- A number without a sign in front is read as a magnitude. -/
theorem readBinary64?_of_digit {c : Char} (hc : isDigit c = true) (cs : List Char) :
    readBinary64? (c :: cs) = readBinary64?.magnitude? false (c :: cs) := by
  have hnot (d : Char) (hd : isDigit d = false) : c ≠ d := by
    rintro rfl
    rw [hc] at hd
    cases hd
  unfold readBinary64?
  split
  next heq => exact (hnot '-' rfl (List.cons.inj heq).1).elim
  next heq => exact (hnot '+' rfl (List.cons.inj heq).1).elim
  next => rfl

theorem readBinary64?_minus (cs : List Char) :
    readBinary64? ('-' :: cs) = readBinary64?.magnitude? true cs := rfl

theorem finiteText_eq (x : Finite64) :
    finiteText x = if x.negative then '-' :: magnitudeText x else magnitudeText x := by
  unfold finiteText magnitudeText
  rfl

/-- The text of a finite number is read as that number. -/
theorem readBinary64?_finiteText (x : Finite64) :
    readBinary64? (finiteText x) = some (.finite x) := by
  have hmagnitude := magnitude?_magnitudeText x
  rw [finiteText_eq]
  split
  next hnegative =>
    rw [hnegative] at hmagnitude
    rw [readBinary64?_minus, hmagnitude]
  next hpositive =>
    obtain ⟨first, rest, hcons, hfirst⟩ := isDigit_head_magnitudeText x
    rw [Bool.eq_false_of_not_eq_true hpositive, hcons] at hmagnitude
    rw [hcons, readBinary64?_of_digit hfirst, hmagnitude]

/-- The text of a finite number is not read as an integer. -/
theorem readInteger?_finiteText (x : Finite64) : readInteger? (finiteText x) = none := by
  obtain ⟨whole, fraction, tail, htext, hlaid⟩ := exists_laidOut_magnitudeText x
  obtain ⟨c, hmem, hc⟩ := hlaid.exists_mark
  rw [← htext] at hmem
  apply readInteger?_eq_none
  refine ⟨c, ?_, hc⟩
  rw [finiteText_eq]
  split
  · exact List.mem_of_mem_drop hmem
  · exact hmem

/-- An integer is read as the number nearest to it. -/
theorem codeOf_natural {n : Nat} (hn : n ≠ 0) (hlt : n < 2 ^ 64) :
    codeOf ⟨n, 0⟩ = codeOfRatio n 1 := by
  have hpos := length_natText_pos n
  have hlength : (natText n).length ≤ 20 :=
    (length_natText_le_iff (by decide)).2 (Nat.lt_trans hlt (by decide))
  unfold codeOf
  dsimp only
  rw [if_neg (by omega), if_neg (by omega)]
  simp

theorem ofInt_natural (n : Nat) : ofInt n = ofCode false (codeOfRatio n 1) := by
  have hsign : decide ((n : Int) < 0) = false := by simp
  rw [ofInt, hsign, Int.natAbs_natCast, ofRatio]

/-- The text of a natural number is read as the number nearest to it. -/
theorem readBinary64?_natText {n : Nat} (hn : n ≠ 0) (hlt : n < 2 ^ 64) :
    readBinary64? (natText n) = some (ofInt n) := by
  obtain ⟨first, rest, hcons⟩ := List.exists_cons_of_ne_nil (natText_ne_nil n)
  have hfirst : isDigit first = true :=
    isDigit_of_mem_natText (hcons ▸ List.mem_cons_self .. : first ∈ natText n)
  have hread : Decimal.readDecimal? (natText n) = some ⟨n, 0⟩ := by
    have hparts := readDecimal?_text (natText_ne_nil n) (fun _ => isDigit_of_mem_natText)
      (List.forall_mem_nil _) (fun c (hc : c ∈ [].head?) => by cases hc)
    simpa [pointed, natOfDigits_natText] using hparts
  rw [hcons, readBinary64?_of_digit hfirst, magnitude?_of_digit hfirst, ← hcons, hread,
    Option.map_some, toBinary64_eq, codeOf_natural hn hlt, ofInt_natural]

end TokenGrammar.Decimal
