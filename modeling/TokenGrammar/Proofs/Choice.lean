import TokenGrammar.Choice

/-!
# Documents of choices

A choice is projected by hand and written field by field, and both give the same document, which
reads back as the choice.  More documents stand for a choice than the written one: an object in
any order with further fields, with defaults spelled out, or an array of the members in order.
`decode?_eq_some_iff` says which.
-/

namespace TokenGrammar.Choice

/-! ## Writing -/

theorem toJson_eq_encode (c : Choice) : c.toJson = c.encode := by
  cases hnull : c.metadata.isNull <;> cases hlabel : c.label <;> cases hhidden : c.hidden <;>
    cases hhighlighted : c.highlighted <;>
      simp [toJson, encode, members, hnull, hlabel, hhidden, hhighlighted]

/-! ## Reading -/

/-- The members beside the key, each perhaps missing, say what the choice has. -/
structure Says (metadata? label? hidden? highlighted? : Option Json) (c : Choice) : Prop where
  metadata : c.metadata = metadata?.getD .null
  label : label? = c.label.map .str ∨ label? = some .null ∧ c.label = none
  hidden : hidden? = some (.bool c.hidden) ∨ hidden? = none ∧ c.hidden = false
  highlighted : highlighted? = some (.bool c.highlighted) ∨
    highlighted? = none ∧ c.highlighted = false

/-- The documents that stand for a choice.  In an object the members go by their names, whatever
else is there, and in an array by their places. -/
inductive Document : Json → Choice → Prop where
  | object {fields : Fields} {c : Choice} (key : Fields.get? fields "key" = some c.key)
      (rest : c.Says (Fields.get? fields "meta") (Fields.get? fields "displayKey")
        (Fields.get? fields "hidden") (Fields.get? fields "highlighted")) :
      Document (.obj fields) c
  | array {items : List Json} {c : Choice} (key : items[0]? = some c.key)
      (rest : c.Says items[1]? items[2]? items[3]? items[4]?) (length : items.length ≤ 5) :
      Document (.arr items) c

theorem readLabel?_eq_some_iff {label? : Option Json} {label : Option String} :
    readLabel? (label?.getD .null) = some label ↔
      label? = label.map .str ∨ label? = some .null ∧ label = none := by
  rcases label? with _ | j
  · cases label <;> simp [readLabel?]
  · cases j <;> cases label <;> simp [readLabel?]

theorem readFlag?_eq_some_iff {flag? : Option Json} {flag : Bool} :
    readFlag? (flag?.getD (.bool false)) = some flag ↔
      flag? = some (.bool flag) ∨ flag? = none ∧ flag = false := by
  rcases flag? with _ | j
  · cases flag <;> simp [readFlag?]
  · cases j <;> cases flag <;> simp [readFlag?]

theorem ofMembers?_eq_some_iff {key : Json} {metadata? label? hidden? highlighted? : Option Json}
    {c : Choice} :
    ofMembers? key metadata? label? hidden? highlighted? = some c ↔
      key = c.key ∧ c.Says metadata? label? hidden? highlighted? := by
  simp only [ofMembers?, Option.bind_eq_bind, Option.bind_eq_some_iff, readLabel?_eq_some_iff,
    readFlag?_eq_some_iff, Option.pure_def, Option.some_inj]
  constructor
  · rintro ⟨label, hlabel, hidden, hhidden, highlighted, hhighlighted, rfl⟩
    exact ⟨rfl, rfl, hlabel, hhidden, hhighlighted⟩
  · rintro ⟨rfl, hmetadata, hlabel, hhidden, hhighlighted⟩
    exact ⟨c.label, hlabel, c.hidden, hhidden, c.highlighted, hhighlighted, by rw [← hmetadata]⟩

theorem decode?_obj_eq_some_iff {fields : Fields} {c : Choice} :
    decode? (.obj fields) = some c ↔ Document (.obj fields) c := by
  simp only [decode?, Option.bind_eq_bind, Option.bind_eq_some_iff, ofMembers?_eq_some_iff]
  constructor
  · rintro ⟨key, hkey, rfl, hsays⟩
    exact .object hkey hsays
  · rintro (⟨hkey, hsays⟩ | _)
    exact ⟨c.key, hkey, rfl, hsays⟩

theorem decode?_arr_eq_some_iff {items : List Json} {c : Choice} :
    decode? (.arr items) = some c ↔ Document (.arr items) c := by
  cases items with
  | nil =>
      refine iff_of_false (by simp [decode?]) ?_
      rintro (_ | ⟨hkey, -, -⟩)
      simp at hkey
  | cons key rest =>
      rw [decode?]
      constructor
      · intro h
        split at h
        case isTrue hlength =>
          obtain ⟨rfl, hsays⟩ := ofMembers?_eq_some_iff.1 h
          exact .array rfl (by simpa using hsays) (Nat.succ_le_succ hlength)
        case isFalse => cases h
      · rintro (_ | ⟨hkey, hsays, hlength⟩)
        rw [if_pos (Nat.le_of_succ_le_succ hlength), ofMembers?_eq_some_iff]
        exact ⟨by simpa using hkey, by simpa using hsays⟩

theorem decode?_eq_some_iff {j : Json} {c : Choice} : decode? j = some c ↔ Document j c := by
  cases j with
  | obj fields => exact decode?_obj_eq_some_iff
  | arr items => exact decode?_arr_eq_some_iff
  | null | bool _ | num _ | str _ => exact iff_of_false (by simp [decode?]) (by rintro ⟨⟩)

/-! ## Reading what was written -/

/-- A member that is written is found under its name, and one that is left out is not. -/
theorem get?_filterMap (members : List (String × Option Json))
    (hnodup : (members.map Prod.fst).Nodup) (name : String) :
    Fields.get? (members.filterMap fun (name, value?) => value?.map (name, ·)) name =
      (members.lookup name).join := by
  induction members with
  | nil => rfl
  | cons member members ih =>
      obtain ⟨first, value?⟩ := member
      obtain ⟨hfirst, hrest⟩ := List.nodup_cons.1 hnodup
      by_cases hname : name = first
      · subst hname
        have hlast : members.lookup name = none :=
          List.lookup_eq_none_iff.2 fun other hmem => by
            simpa using fun heq : name = other.1 => hfirst (List.mem_map.2 ⟨other, hmem, heq.symm⟩)
        cases value? with
        | none => simpa [hlast] using ih hrest
        | some value => simp [Fields.get?]
      · have hother : (first == name) = false := by simpa using Ne.symm hname
        have hlookup : (name == first) = false := by simpa using hname
        cases value? with
        | none => simpa [List.lookup_cons, hlookup] using ih hrest
        | some value => simpa [Fields.get?, hother, List.lookup_cons, hlookup] using ih hrest

/-- A flag is written only if it is set, and one that is missing counts as not set. -/
theorem flag_of_written {flag? : Option Json} {flag : Bool}
    (h : flag? = if flag then some (.bool true) else none) :
    flag? = some (.bool flag) ∨ flag? = none ∧ flag = false := by
  subst h
  cases flag <;> simp

theorem metadata_of_written {metadata? : Option Json} {metadata : Json}
    (h : metadata? = if metadata.isNull then none else some metadata) :
    metadata = metadata?.getD .null := by
  subst h
  cases metadata <;> rfl

theorem document_encode (c : Choice) : Document c.encode c := by
  have hget := get?_filterMap c.members (by simp [members])
  exact .object (hget "key") ⟨metadata_of_written (hget "meta"), .inl (hget "displayKey"),
    flag_of_written (hget "hidden"), flag_of_written (hget "highlighted")⟩

/-- A choice has one projection, which is what it is written as and reads back as the choice.
Reading takes the documents that stand for a choice and no others, and the projection of what was
read reads as the same choice again. -/
theorem projection_round_trips :
    (∀ c : Choice, c.toJson = c.encode ∧ decode? c.toJson = some c) ∧
    ∀ (j : Json) (c : Choice), (decode? j = some c ↔ Document j c) ∧
      (decode? j = some c → decode? c.toJson = some c) := by
  have hread (c : Choice) : decode? c.toJson = some c := by
    rw [toJson_eq_encode, decode?_eq_some_iff]
    exact document_encode c
  exact ⟨fun c => ⟨toJson_eq_encode c, hread c⟩,
    fun j c => ⟨decode?_eq_some_iff, fun _ => hread c⟩⟩

/-- A null key is a key; a null label is none, and what has no meaning is passed over. -/
theorem projection_round_trips_nullKey :
    let j : Json := .obj
      [("hidden", .bool true), ("displayKey", .null), ("color", .str "red"), ("key", .null)]
    let c : Choice := ⟨.null, .null, none, true, false⟩
    decode? j = some c ∧ Document j c ∧ decode? c.toJson = some c := by
  intro j c
  have hread : decode? j = some c := rfl
  obtain ⟨hiff, hagain⟩ := projection_round_trips.2 j c
  exact ⟨hread, hiff.1 hread, hagain hread⟩

end TokenGrammar.Choice
