import TokenGrammar.Boxer.Currency
import TokenGrammar.Boxer.DateTime
import TokenGrammar.Proofs.Boxer.Stable

/-!
# The boxers that steps are built with

Every boxer that a builder of steps uses keeps the raw form of a choice in its key.  That key
is an array only where an array was boxed: amounts are numbers and instants are texts.
-/

namespace TokenGrammar.Boxer

/-- The boxers that the builders of steps use. -/
inductive Standard : Boxer → Prop where
  | elementary {boxer : Boxer} (h : boxer.Elementary) : Standard boxer
  | currency (c : Currency) : Standard (Boxer.currency c)
  | dateTime (pattern : String) : Standard (Boxer.dateTime pattern)

theorem Standard.unbox_eq {boxer : Boxer} (h : boxer.Standard) (choice : Choice) :
    boxer.unbox choice = choice.key := by
  cases h with
  | elementary h => cases h <;> rfl
  | currency c => rfl
  | dateTime pattern => rfl

theorem isArray_of_key? {c : Currency} {amount : Binary64} {key : Json}
    (h : c.key? amount = some key) : key.isArray = false := by
  unfold Currency.key? at h
  split at h
  · obtain rfl := Option.some.inj h
    rfl
  · obtain ⟨x, -, rfl⟩ := Option.map_eq_some_iff.1 h
    rfl

theorem isArray_of_boxCurrency {c : Currency} {raw : Json} (options : List Choice)
    {choice : Choice} (h : boxCurrency c raw options = .ok (some choice)) :
    choice.key.isArray = false := by
  unfold boxCurrency at h
  cases hamount : c.amount? raw with
  | none => simp [hamount] at h
  | some amount =>
      cases hkey : c.key? (c.round amount) with
      | none => simp [hamount, hkey] at h
      | some key =>
          simp only [hamount, hkey] at h
          cases hlabel : c.formatOrFault (c.round amount) with
          | error fault => simp [hlabel, Except.map] at h
          | ok label =>
              obtain rfl := Option.some.inj (Except.ok.inj (hlabel ▸ h))
              exact isArray_of_key? hkey

theorem isArray_of_boxDateTime {pattern : String} {raw : Json} (options : List Choice)
    {choice : Choice} (h : boxDateTime pattern raw options = .ok (some choice)) :
    choice.key.isArray = false := by
  unfold boxDateTime at h
  split at h
  · cases h
  · split at h
    · cases h
    · obtain rfl := Option.some.inj (Except.ok.inj h)
      rfl

/-- The key of a choice is an array only if an array was boxed. -/
theorem Standard.isArray_key {boxer : Boxer} (h : boxer.Standard) {raw : Json}
    {options : List Choice} {choice : Choice} (hbox : boxer.box raw options = .ok (some choice))
    (hraw : raw.isArray = false) : choice.key.isArray = false := by
  have hunbox := h.unbox_eq choice
  cases h with
  | elementary helementary =>
      rw [← hunbox]
      exact helementary.stable.not_array hbox hraw
  | currency c => exact isArray_of_boxCurrency options hbox
  | dateTime pattern => exact isArray_of_boxDateTime options hbox

end TokenGrammar.Boxer
