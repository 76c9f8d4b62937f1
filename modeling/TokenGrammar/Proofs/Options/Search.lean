import TokenGrammar.Options.Source
import TokenGrammar.Proofs.Text.Lowercase

/-!
# Searching a fixed list by a piece of a label

The hint and the labels are put in lower case each on its own, and only then the one is looked for
in the others.  So a piece of a label finds its option as long as its capital sigmas have the same
form in the label as on their own.
-/

namespace TokenGrammar.Source

variable {options : List Choice} {hint : String} {o : Choice}

theorem matching_sublist (options : List Choice) (hint : String) :
    (matching options hint).Sublist options := by
  unfold matching
  split
  · exact List.Sublist.refl options
  · exact List.filter_sublist

theorem mem_matching_iff :
    o ∈ matching options hint ↔
      o ∈ options ∧ Text.lower hint.toList <:+: Text.lower o.display.toList := by
  unfold matching
  split
  next hempty =>
    rw [String.isEmpty_iff.1 hempty]
    exact (and_iff_left (List.nil_infix ..)).symm
  next => rw [List.mem_filter, Text.contains_iff_infix]

/-- A search keeps the order of the list.  A piece of a label finds its option if each capital sigma
in it ends a word in the label just where it does in the piece, and so always if there is none in
it.  But for the two forms of small sigmas its lower-case form is always a piece of that of the
label. -/
theorem matching_finds_piece (options : List Choice) (hint : String) :
    (matching options hint).Sublist options ∧
      ∀ o ∈ options, ∀ before after, o.display.toList = before ++ hint.toList ++ after →
        (Text.SigmasKept before hint.toList after → o ∈ matching options hint) ∧
        (Text.capitalSigma ∉ hint.toList → o ∈ matching options hint) ∧
        (Text.lower hint.toList).map Text.plainSigma <:+:
          (Text.lower o.display.toList).map Text.plainSigma := by
  refine ⟨matching_sublist options hint, fun o ho before after hdisplay => ?_⟩
  have hkept (h : Text.SigmasKept before hint.toList after) : o ∈ matching options hint := by
    have hinfix := Text.lowerWithin_infix_lower before hint.toList after
    rw [Text.lowerWithin_eq_lower_iff.2 h, ← hdisplay] at hinfix
    exact mem_matching_iff.2 ⟨ho, hinfix⟩
  refine ⟨hkept, fun hnone => hkept (Text.sigmasKept_of_not_mem hnone), ?_⟩
  rw [hdisplay]
  exact Text.map_plainSigma_infix before hint.toList after

/-- The end of a word finds it, also where that is a sigma. -/
theorem matching_finds_piece_street :
    let street : Choice := { key := .str "street", label := some "ΟΔΟΣ" }
    let options : List Choice := [.ofKey (.str "height"), street]
    street ∈ options ∧ street.display.toList = "ΟΔ".toList ++ "ΟΣ".toList ++ [] ∧
      Text.SigmasKept "ΟΔ".toList "ΟΣ".toList [] ∧ street ∈ matching options "ΟΣ" := by
  intro street options
  have hmem : street ∈ options := List.mem_cons_of_mem _ List.mem_cons_self
  have hdisplay : street.display.toList = "ΟΔ".toList ++ "ΟΣ".toList ++ [] := by decide
  have hkept : Text.SigmasKept "ΟΔ".toList "ΟΣ".toList [] := by decide +kernel
  obtain ⟨-, hfinds⟩ := matching_finds_piece options "ΟΣ"
  exact ⟨hmem, hdisplay, hkept, (hfinds street hmem _ _ hdisplay).1 hkept⟩

/-- A sigma on its own ends no word, and is not found where it does. -/
theorem matching_misses_piece :
    let option : Choice := { key := .str "as", label := some "ΑΣ" }
    option.display.toList = "Α".toList ++ "Σ".toList ++ [] ∧ matching [option] "Σ" = [] := by
  decide +kernel

end TokenGrammar.Source
