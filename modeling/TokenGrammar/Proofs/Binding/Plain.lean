import TokenGrammar.Proofs.Binding.Written
import TokenGrammar.Proofs.Slot.Entered

/-!
# What a plain step takes from its own token

A slot that was filled by hand has written its entry.  Its step takes that entry back, and
then holds what was in the archive and in progress as archive, if it collects its values,
and else its value.  A step without a key takes nothing and loses its value.
-/

namespace TokenGrammar

namespace Slot

variable {s : Slot}

/-- The value of the step after it has taken back its own entry. -/
def keptValue (s : Slot) : Option Choice :=
  if s.node.vkey.isSome && !s.config.multivalue then s.value else none

/-- The archive of the step after it has taken back its own entry. -/
def keptArchive (s : Slot) : List Choice :=
  if s.node.vkey.isSome && s.config.multivalue then s.archive ++ s.value.toList else []

/-- A value in progress has room in the archive, where the step writes both. -/
def Fits (s : Slot) : Prop :=
  s.node.vkey.isSome = true → s.config.multivalue = true → s.value.isSome = true →
    ∀ limit, s.config.multivalueLimit = some limit → s.archive.length < limit

end Slot

theorem Validator.required_eq_ok_iff {value? : Option Choice} {archive : List Choice} :
    Validator.required value? archive = .ok true ↔ value? ≠ none ∨ archive ≠ [] := by
  cases value? <;> cases archive <;> simp [required, ofCheck]

namespace StepConfig

variable {config : StepConfig} {context : Context} {options archive result : List Choice}
  {items : List Json}

theorem collects_iff (hboxer : config.boxer = Boxer.identity)
    (hvalidator : config.validator = Validator.required) :
    config.Collects options archive items result ↔
      (∀ item ∈ items, item.isNull = false ∧ item.isArray = false) ∧
        result = archive ++ items.map Choice.ofKey ∧
        (items ≠ [] → ∀ limit, config.multivalueLimit = some limit →
          archive.length + items.length ≤ limit) := by
  have hbox (item : Json) (value : Choice) :
      config.boxer.box item options = .ok (some value) ↔
        item.isNull = false ∧ value = .ofKey item := by
    rw [hboxer, Boxer.box_identity_eq_some_iff]
  have hvalid (value : Choice) (archive : List Choice) :
      config.validator (some value) archive = .ok true := by
    rw [hvalidator]
    rfl
  -- Room is asked for value by value; there is room for all if there is for the last one.
  induction items generalizing archive with
  | nil =>
      constructor
      · rintro ⟨⟩
        simp
      · rintro ⟨-, rfl, -⟩
        rw [List.map_nil, List.append_nil]
        exact .done
  | cons item items ih =>
      constructor
      · rintro (_ | ⟨hsingle, hboxed, -, hroom, hrest⟩)
        obtain ⟨hnull, rfl⟩ := (hbox item _).1 hboxed
        obtain ⟨hitems, rfl, hlimit⟩ := ih.1 hrest
        refine ⟨List.forall_mem_cons.2 ⟨⟨hnull, hsingle⟩, hitems⟩, by simp, ?_⟩
        intro _ limit hsome
        have hlt := hroom limit hsome
        cases items with
        | nil => simpa using Nat.succ_le_of_lt hlt
        | cons next items =>
            have hle := hlimit (by simp) limit hsome
            simp only [List.length_append, List.length_cons, List.length_nil] at hle ⊢
            omega
      · rintro ⟨hitems, rfl, hlimit⟩
        obtain ⟨⟨hnull, hsingle⟩, hitems⟩ := List.forall_mem_cons.1 hitems
        refine .next hsingle ((hbox item _).2 ⟨hnull, rfl⟩) (hvalid _ _) ?_ (ih.2 ⟨hitems, ?_, ?_⟩)
        · intro limit hsome
          have hle := hlimit (by simp) limit hsome
          simp only [List.length_cons] at hle
          omega
        · simp
        · intro _ limit hsome
          have hle := hlimit (by simp) limit hsome
          simp only [List.length_append, List.length_cons, List.length_nil] at hle ⊢
          omega

theorem binds_nothing_iff (hsource : config.source = .absent) (hdefault : config.default? = none)
    {value? : Option Choice} :
    config.Binds context none value? archive ↔ value? = none ∧ archive = [] := by
  constructor
  · rintro ⟨-⟩
    exact ⟨hdefault, rfl⟩
  · rintro ⟨rfl, rfl⟩
    have hbinds : config.Binds context none config.default? [] :=
      .nothing (offered?_of_absent hsource "" context)
    rwa [hdefault] at hbinds

theorem binds_single_iff (hsource : config.source = .absent)
    (hboxer : config.boxer = Boxer.identity) (hsingle : config.multivalue = false)
    {raw : Json} {value? : Option Choice} :
    config.Binds context (some raw) value? archive ↔
      raw.isNull = false ∧ value? = some (.ofKey raw) ∧ archive = [] := by
  have hhydrated : config.hydrated? context (some raw) = some [] := by
    rw [hydrated?_some (offered?_of_absent hsource "" context), hboxer, Boxer.box_identity]
    cases raw.isNull <;> simp [hsource, Source.isPresent]
  constructor
  · rintro (_ | ⟨-, -, hboxed⟩ | ⟨hseveral, -, -⟩)
    · rw [hboxer, Boxer.box_identity] at hboxed
      cases hnull : raw.isNull with
      | true => simp [hnull] at hboxed
      | false =>
          obtain rfl : Choice.ofKey raw = _ := by simpa [hnull] using hboxed
          exact ⟨rfl, rfl, rfl⟩
    · simp [hsingle] at hseveral
  · rintro ⟨hnull, rfl, rfl⟩
    refine .single hsingle hhydrated ?_
    rw [hboxer, Boxer.box_identity, hnull]
    rfl

theorem binds_several_iff (hsource : config.source = .absent) (hdefault : config.default? = none)
    (hseveral : config.multivalue = true) {raw : Json} {value? : Option Choice} :
    config.Binds context (some raw) value? archive ↔
      value? = none ∧ config.Collects [] [] (Machine.itemsOf raw) archive := by
  have hhydrated : config.hydrated? context none = some [] := offered?_of_absent hsource "" context
  constructor
  · rintro (_ | ⟨hsingle, -, -⟩ | ⟨-, hoptions, hcollects⟩)
    · simp [hseveral] at hsingle
    · obtain rfl : [] = _ := Option.some.inj (hhydrated.symm.trans hoptions)
      exact ⟨hdefault, hcollects⟩
  · rintro ⟨rfl, hcollects⟩
    have hbinds : config.Binds context (some raw) config.default? archive :=
      .several hseveral hhydrated hcollects
    rwa [hdefault] at hbinds

end StepConfig

namespace Slot

variable {s : Slot} {token : Token} {vkey : String}

def all (s : Slot) : List Choice := s.archive ++ s.value.toList

theorem entryOf_kept {t : Slot} (hnode : t.node = s.node) (hvalue : t.value = s.keptValue)
    (harchive : t.archive = s.keptArchive) (hkey : s.node.vkey.isSome = true) :
    Machine.entryOf unbox t = Machine.entryOf unbox s := by
  have hconfig : t.config = s.config := congrArg (·.step.config) hnode
  have hunbox : t.unbox = s.unbox := unbox_congr hnode
  cases hmultivalue : s.config.multivalue with
  | false =>
      have hkept : s.keptValue = s.value := by simp [keptValue, hkey, hmultivalue]
      simp [Machine.entryOf, hconfig, hmultivalue, hunbox, hvalue, hkept]
  | true =>
      have hvalue : t.value = none := by simp [hvalue, keptValue, hmultivalue]
      have harchive : t.archive = s.archive ++ s.value.toList := by
        simp [harchive, keptArchive, hkey, hmultivalue]
      simp [Machine.entryOf, hconfig, hmultivalue, hunbox, hvalue, harchive]

namespace Entered

variable (h : s.Entered) (hwritten : s.Written token)

include h

theorem takes_of_mem_all {value : Choice} (hmem : value ∈ s.all) : s.Takes value := by
  rcases List.mem_append.1 hmem with hmem | hmem
  · exact h.archive_takes value hmem
  · exact h.value_takes value (Option.mem_toList.1 hmem)

theorem map_unbox (values : List Choice) : values.map s.unbox = values.map Choice.key :=
  List.map_congr_left fun value _ => unbox_of_plain h.plain value

theorem fits_iff (hkey : s.node.vkey.isSome = true) (hseveral : s.config.multivalue = true) :
    s.Fits ↔ ∀ limit, s.config.multivalueLimit = some limit → s.all.length ≤ limit := by
  unfold Fits all
  cases hvalue : s.value with
  | none => simpa using h.archive_room
  | some value =>
      constructor
      · intro hfits limit hlimit
        have hlt := hfits hkey hseveral rfl limit hlimit
        simp only [Option.toList_some, List.length_append, List.length_singleton]
        omega
      · intro hall _ _ _ limit hlimit
        have hle := hall limit hlimit
        simp only [Option.toList_some, List.length_append, List.length_singleton] at hle
        omega

include hwritten

theorem stored?_single (hkey : s.node.vkey = some vkey) (hsingle : s.config.multivalue = false) :
    s.node.stored? token = s.value.map Choice.key := by
  rw [hwritten.stored?_eq hkey, Machine.entryOf, hsingle, if_neg Bool.false_ne_true]
  cases hvalue : s.value with
  | none => rfl
  | some value =>
      have hnull := (h.value_takes value hvalue).key_not_null
      have hpresent : Machine.isAbsent value.key false = false := by
        cases hraw : value.key with
        | null => simp [hraw, Json.isNull] at hnull
        | _ => rfl
      simp [unbox_of_plain h.plain, hpresent]

theorem stored?_several (hkey : s.node.vkey = some vkey) (hseveral : s.config.multivalue = true) :
    s.node.stored? token = if s.all = [] then none else some (.arr (s.all.map Choice.key)) := by
  rw [hwritten.stored?_eq hkey, Machine.entryOf, hseveral, if_pos rfl, ← all, h.map_unbox]
  cases s.all <;> simp [Machine.isAbsent]

theorem binds_single (hkey : s.node.vkey = some vkey) (hsingle : s.config.multivalue = false)
    (context : Context) (value? : Option Choice) (archive : List Choice) :
    s.config.Binds context (s.node.stored? token) value? archive ↔
      value? = s.value ∧ archive = [] := by
  have hsource : s.config.source = .absent := h.plain.source_eq
  have hdefault : s.config.default? = none := h.plain.default_eq
  have hboxer : s.config.boxer = Boxer.identity := h.plain.boxer_eq
  rw [h.stored?_single hwritten hkey hsingle]
  cases hvalue : s.value with
  | none =>
      rw [Option.map_none, StepConfig.binds_nothing_iff hsource hdefault]
  | some value =>
      have htakes := h.value_takes value hvalue
      rw [Option.map_some, StepConfig.binds_single_iff hsource hboxer hsingle,
        htakes.ofKey_key, and_iff_right htakes.key_not_null]

theorem binds_several (hkey : s.node.vkey = some vkey) (hseveral : s.config.multivalue = true)
    (context : Context) (value? : Option Choice) (archive : List Choice) :
    s.config.Binds context (s.node.stored? token) value? archive ↔
      value? = none ∧ archive = s.all ∧
        ∀ limit, s.config.multivalueLimit = some limit → s.all.length ≤ limit := by
  have hsource : s.config.source = .absent := h.plain.source_eq
  have hdefault : s.config.default? = none := h.plain.default_eq
  have hboxer : s.config.boxer = Boxer.identity := h.plain.boxer_eq
  rw [h.stored?_several hwritten hkey hseveral]
  by_cases hall : s.all = []
  · rw [if_pos hall, StepConfig.binds_nothing_iff hsource hdefault]
    simp [hall]
  · have hitems : ∀ item ∈ s.all.map Choice.key, item.isNull = false ∧ item.isArray = false := by
      intro item hitem
      obtain ⟨value, hvalue, rfl⟩ := List.mem_map.1 hitem
      have htakes := h.takes_of_mem_all hvalue
      exact ⟨htakes.key_not_null, htakes.key_not_array hseveral⟩
    have hback : (s.all.map Choice.key).map Choice.ofKey = s.all := by
      rw [List.map_map]
      exact (List.map_congr_left fun value hvalue =>
        (h.takes_of_mem_all hvalue).ofKey_key).trans (List.map_id _)
    rw [if_neg hall, StepConfig.binds_several_iff hsource hdefault hseveral,
      StepConfig.collects_iff hboxer (h.plain.keyed vkey hkey)]
    simp only [Machine.itemsOf, hback, List.nil_append, List.length_nil, Nat.zero_add,
      List.length_map, ne_eq, List.map_eq_nil_iff, hall, not_false_eq_true, true_implies]
    exact and_congr_right fun _ => and_iff_right hitems

/-- The step takes its own entry back, if a value in progress has room in the archive. -/
theorem binds_iff (context : Context) (value? : Option Choice) (archive : List Choice) :
    s.config.Binds context (s.node.stored? token) value? archive ↔
      value? = s.keptValue ∧ archive = s.keptArchive ∧ s.Fits := by
  have hsource : s.config.source = .absent := h.plain.source_eq
  have hdefault : s.config.default? = none := h.plain.default_eq
  cases hkey : s.node.vkey with
  | none =>
      rw [Node.stored?_keyless hkey, StepConfig.binds_nothing_iff hsource hdefault]
      simp [keptValue, keptArchive, Fits, hkey]
  | some vkey =>
      cases hmultivalue : s.config.multivalue with
      | false =>
          rw [h.binds_single hwritten hkey hmultivalue]
          simp [keptValue, keptArchive, Fits, hkey, hmultivalue]
      | true =>
          rw [h.binds_several hwritten hkey hmultivalue, h.fits_iff (by simp [hkey]) hmultivalue]
          simp [keptValue, keptArchive, all, hkey, hmultivalue]

theorem missing_iff :
    s.node.Missing token ↔
      s.node.vkey.isSome = true ∧ s.keptValue = none ∧ s.keptArchive = [] := by
  unfold Node.Missing
  cases hkey : s.node.vkey with
  | none => simp
  | some vkey =>
      cases hmultivalue : s.config.multivalue with
      | false =>
          rw [h.stored?_single hwritten hkey hmultivalue]
          simp [keptValue, keptArchive, hkey, hmultivalue]
      | true =>
          rw [h.stored?_several hwritten hkey hmultivalue]
          simp [keptValue, keptArchive, hkey, hmultivalue, all]

omit hwritten in
theorem validator_kept (hvalid : s.config.validator s.value s.archive = .ok true) :
    s.config.validator s.keptValue s.keptArchive = .ok true := by
  cases hkey : s.node.vkey with
  | none =>
      rw [config, h.plain.keyless hkey]
      rfl
  | some vkey =>
      have hrequired : s.config.validator = Validator.required := h.plain.keyed vkey hkey
      rw [hrequired, Validator.required_eq_ok_iff] at hvalid ⊢
      cases hmultivalue : s.config.multivalue with
      | false =>
          have harchive := h.archive_single hmultivalue
          simpa [keptValue, keptArchive, hkey, hmultivalue, harchive] using hvalid
      | true =>
          refine .inr ?_
          simp only [keptArchive, hkey, hmultivalue, Option.isSome_some, Bool.and_self, if_true]
          rcases hvalid with hvalue | harchive
          · simp [hvalue]
          · simp [harchive]

theorem not_missing (hvalid : s.config.validator s.value s.archive = .ok true) :
    ¬ s.node.Missing token := by
  rw [h.missing_iff hwritten]
  rintro ⟨hkey, hvalue, harchive⟩
  obtain ⟨vkey, hkey⟩ := Option.isSome_iff_exists.1 hkey
  have hrequired : s.config.validator = Validator.required := h.plain.keyed vkey hkey
  have hkept := h.validator_kept hvalid
  rw [hrequired, hvalue, harchive] at hkept
  cases hkept

end Entered

end Slot

end TokenGrammar
