import TokenGrammar.Choice

/-!
# Equality of JSON values

Two values are equal if they have one canonical form, so equality is an equivalence, and
what the canonical form leaves as it is agrees on equal values.  Choices are equal member by
member, so their equality is an equivalence as well, also where a choice may be missing.
-/

namespace TokenGrammar

namespace Json

mutual

theorem identical_iff (a b : Json) : identical a b = true ↔ a = b := by
  cases a <;> cases b <;> simp [identical]
  case arr.arr as bs => exact identicalItems_iff as bs
  case obj.obj as bs => exact identicalFields_iff as bs

theorem identicalItems_iff (as bs : List Json) : identicalItems as bs = true ↔ as = bs := by
  cases as with
  | nil => cases bs <;> simp [identicalItems]
  | cons a as =>
      cases bs with
      | nil => simp [identicalItems]
      | cons b bs => simp [identicalItems, identical_iff a b, identicalItems_iff as bs]

theorem identicalFields_iff (as bs : List (String × Json)) :
    identicalFields as bs = true ↔ as = bs := by
  cases as with
  | nil => cases bs <;> simp [identicalFields]
  | cons field as =>
      obtain ⟨k, a⟩ := field
      cases bs with
      | nil => simp [identicalFields]
      | cons other bs =>
          obtain ⟨l, b⟩ := other
          simp [identicalFields, identical_iff a b, identicalFields_iff as bs]

end

theorem beq_iff_canonical {a b : Json} : (a == b) = true ↔ a.canonical = b.canonical :=
  identical_iff a.canonical b.canonical

instance : EquivBEq Json where
  rfl := beq_iff_canonical.2 rfl
  symm h := beq_iff_canonical.2 (beq_iff_canonical.1 h).symm
  trans h h' := beq_iff_canonical.2 ((beq_iff_canonical.1 h).trans (beq_iff_canonical.1 h'))

@[simp] theorem isNull_canonical (a : Json) : a.canonical.isNull = a.isNull := by
  cases a <;> rfl

@[simp] theorem isArray_canonical (a : Json) : a.canonical.isArray = a.isArray := by
  cases a <;> rfl

theorem isNull_congr {a b : Json} (h : (a == b) = true) : a.isNull = b.isNull := by
  rw [← isNull_canonical a, beq_iff_canonical.1 h, isNull_canonical]

theorem isArray_congr {a b : Json} (h : (a == b) = true) : a.isArray = b.isArray := by
  rw [← isArray_canonical a, beq_iff_canonical.1 h, isArray_canonical]

end Json

namespace Choice

theorem beq_iff {a b : Choice} :
    (a == b) = true ↔ ((((a.key == b.key) = true ∧ (a.metadata == b.metadata) = true) ∧
      a.label = b.label) ∧ a.hidden = b.hidden) ∧ a.highlighted = b.highlighted := by
  change (a.key == b.key && a.metadata == b.metadata && a.label == b.label &&
    a.hidden == b.hidden && a.highlighted == b.highlighted) = true ↔ _
  simp only [Bool.and_eq_true, beq_iff_eq]

instance : EquivBEq Choice where
  rfl := by simp [beq_iff]
  symm h := by
    obtain ⟨⟨⟨⟨hkey, hmetadata⟩, hlabel⟩, hhidden⟩, hhighlighted⟩ := beq_iff.1 h
    exact beq_iff.2 ⟨⟨⟨⟨BEq.symm hkey, BEq.symm hmetadata⟩, hlabel.symm⟩, hhidden.symm⟩,
      hhighlighted.symm⟩
  trans h h' := by
    obtain ⟨⟨⟨⟨hkey, hmetadata⟩, hlabel⟩, hhidden⟩, hhighlighted⟩ := beq_iff.1 h
    obtain ⟨⟨⟨⟨hkey', hmetadata'⟩, hlabel'⟩, hhidden'⟩, hhighlighted'⟩ := beq_iff.1 h'
    exact beq_iff.2 ⟨⟨⟨⟨BEq.trans hkey hkey', BEq.trans hmetadata hmetadata'⟩,
      hlabel.trans hlabel'⟩, hhidden.trans hhidden'⟩, hhighlighted.trans hhighlighted'⟩

end Choice

instance instEquivBEqOption {α : Type} [BEq α] [EquivBEq α] : EquivBEq (Option α) where
  rfl {a} := by cases a <;> simp
  symm {a b} h := by
    cases a <;> cases b <;> simp at h ⊢
    exact BEq.symm h
  trans {a b c} h h' := by
    cases a <;> cases b <;> cases c <;> simp at h h' ⊢
    exact BEq.trans h h'

end TokenGrammar
