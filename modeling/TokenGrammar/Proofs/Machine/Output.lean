import TokenGrammar.Proofs.Boxer.Standard
import TokenGrammar.Proofs.Machine.Token
import TokenGrammar.Proofs.Machine.Traversal

/-!
# The two tokens of a machine

A machine writes its token in two forms, with choices or with raw values, by one walk down the
path.  Keys may repeat on the way: the first step with a key decides where it stands in the
token, the last one what stands under it.
-/

namespace TokenGrammar

namespace Fields

/-- The fields with each value replaced by what is made of it. -/
def mapValues (f : Json → Json) (fields : Fields) : Fields :=
  fields.map fun field => (field.1, f field.2)

theorem keys_set (fields : Fields) (key : String) (value : Json) :
    keys (fields.set key value) =
      if key ∈ keys fields then keys fields else keys fields ++ [key] := by
  induction fields with
  | nil => rfl
  | cons field fields ih =>
      by_cases hkey : field.1 = key
      · simp [set, keys, hkey]
      · have hmem : key ∈ keys (field :: fields) ↔ key ∈ keys fields := by
          simp [keys, Ne.symm hkey]
        have hset : keys (set (field :: fields) key value) =
            field.1 :: keys (set fields key value) := by
          simp [set, keys, hkey]
        rw [hset, ih]
        simp only [hmem]
        split <;> rfl

theorem mapValues_set (f : Json → Json) (fields : Fields) (key : String) (value : Json) :
    mapValues f (fields.set key value) = (mapValues f fields).set key (f value) := by
  induction fields with
  | nil => rfl
  | cons field fields ih =>
      by_cases hkey : field.1 = key
      · simp [set, mapValues, hkey]
      · simpa [set, mapValues, hkey] using ih

end Fields

/-! ## From choices to keys -/

namespace Json

/-- The key in place of the projection of a choice. -/
def unwrap : Json → Json
  | .obj fields => (Fields.get? fields "key").getD .null
  | raw => raw

/-- An entry with the key in place of each choice; an entry without a value stays null. -/
def unwrapEntry : Json → Json
  | .arr items => .arr (items.map unwrap)
  | raw => raw.unwrap

end Json

theorem Choice.unwrap_toJson (choice : Choice) : choice.toJson.unwrap = choice.key := by
  simp [toJson, Json.unwrap, Fields.get?]

namespace Machine

variable {m : Machine} {project : Slot → Choice → Json} {ids : List Nat} {vkey : String}

theorem unwrapEntry_entryOf {slot : Slot} (h : slot.config.boxer.Standard) :
    (entryOf (fun _ value => value.toJson) slot).unwrapEntry = entryOf Slot.unbox slot := by
  have hunbox : slot.unbox = fun choice => choice.toJson.unwrap := by
    funext choice
    rw [choice.unwrap_toJson]
    exact h.unbox_eq choice
  unfold entryOf
  cases slot.config.multivalue with
  | true => simp [Json.unwrapEntry, hunbox, Function.comp_def]
  | false =>
      cases slot.value with
      | none => rfl
      | some value => exact (congrFun hunbox value).symm

/-- Where every boxer keeps the raw value in the key, one walk gives both tokens. -/
theorem rawToken_eq_mapValues (h : ∀ id, (m.tree.slot id).config.boxer.Standard) :
    m.rawToken = m.boxedToken.mapValues Json.unwrapEntry := by
  rw [rawToken, boxedToken, collect_eq, collect_eq]
  change (m.tree.pathTo m.current).foldl _ (Fields.mapValues Json.unwrapEntry []) = _
  refine List.foldl_hom (Fields.mapValues Json.unwrapEntry) fun token id => ?_
  unfold withEntry
  cases m.vkeyAt id with
  | none => rfl
  | some vkey => simp only [Fields.mapValues_set, unwrapEntry_entryOf (h id)]

/-! ## Keys and entries -/

/-- The keys of a token stand in the order in which they first occur. -/
theorem keys_foldl_withEntry (m : Machine) (project : Slot → Choice → Json) (ids : List Nat) :
    Fields.keys (ids.foldl (m.withEntry project) []) = (ids.filterMap m.vkeyAt).eraseDups := by
  induction ids using List.reverseRecOn with
  | nil => rfl
  | append_singleton ids id ih =>
      rw [List.foldl_concat, List.filterMap_append]
      cases hvkey : m.vkeyAt id with
      | none => simpa [withEntry, hvkey] using ih
      | some vkey =>
          -- A key that is there already keeps its place, and any other goes to the end.
          have hset : Fields.keys (m.withEntry project (ids.foldl (m.withEntry project) []) id) =
              if vkey ∈ (ids.filterMap m.vkeyAt).eraseDups then (ids.filterMap m.vkeyAt).eraseDups
              else (ids.filterMap m.vkeyAt).eraseDups ++ [vkey] := by
            simp only [withEntry, hvkey, Fields.keys_set, ih]
          have hlast : [id].filterMap m.vkeyAt = [vkey] := List.filterMap_cons_some hvkey
          rw [hset, hlast, List.eraseDups_append]
          generalize ids.filterMap m.vkeyAt = vkeys
          by_cases hmem : vkey ∈ vkeys <;> simp [List.removeAll, List.eraseDups_cons, hmem]

/-- The deepest of some steps that has a key. -/
def Deepest (m : Machine) (ids : List Nat) (vkey : String) (id : Nat) : Prop :=
  ∃ above below, ids = above ++ id :: below ∧ m.vkeyAt id = some vkey ∧
    vkey ∉ below.filterMap m.vkeyAt

theorem exists_deepest (h : vkey ∈ ids.filterMap m.vkeyAt) : ∃ id, m.Deepest ids vkey id := by
  induction ids with
  | nil => cases h
  | cons first ids ih =>
      by_cases hbelow : vkey ∈ ids.filterMap m.vkeyAt
      · obtain ⟨id, above, below, rfl, hvkey, hlast⟩ := ih hbelow
        exact ⟨id, first :: above, below, rfl, hvkey, hlast⟩
      · have hfirst : m.vkeyAt first = some vkey := by
          obtain ⟨id, hid, hvkey⟩ := List.mem_filterMap.1 h
          rcases List.mem_cons.1 hid with rfl | hid
          · exact hvkey
          · exact absurd (List.mem_filterMap.2 ⟨id, hid, hvkey⟩) hbelow
        exact ⟨first, [], ids, rfl, hfirst, hbelow⟩

theorem Deepest.get?_foldl {id : Nat} (h : m.Deepest ids vkey id) (token : Token) :
    Fields.get? (ids.foldl (m.withEntry project) token) vkey =
      some (entryOf project (m.tree.slot id)) := by
  obtain ⟨above, below, rfl, hvkey, hlast⟩ := h
  exact get?_foldl_withEntry_append hvkey hlast

/-- What a step shows in a token: its value as it is projected, or null, and where it collects
its values all of them, the one in progress last. -/
structure Shows (project : Choice → Json) (slot : Slot) (entry : Json) : Prop where
  absent : slot.config.multivalue = false → slot.value = none → entry = .null
  single : ∀ value, slot.config.multivalue = false → slot.value = some value →
    entry = project value
  many : slot.config.multivalue = true →
    entry = .arr ((slot.archive ++ slot.value.toList).map project)

theorem shows_entryOf (project : Slot → Choice → Json) (slot : Slot) :
    Shows (project slot) slot (entryOf project slot) := by
  constructor
  · intro hsingle hnone
    simp [entryOf, hsingle, hnone]
  · intro value hsingle hsome
    simp [entryOf, hsingle, hsome]
  · intro hmany
    simp [entryOf, hmany]

/-! ## Runs -/

theorem standard_play {template : Template}
    (h : ∀ node ∈ (Tree.ofTemplate template).nodes, node.step.config.boxer.Standard)
    (flag : Bool) (turns : List Turn) (id : Nat) :
    (((new template flag).play turns).tree.slot id).config.boxer.Standard := by
  have hplaced := placed_play template flag turns
  rcases Nat.lt_or_ge id ((new template flag).play turns).tree.size with hlt | hge
  · refine h _ (List.mem_of_getElem? (i := id) ?_)
    rw [← hplaced.nodes_eq]
    exact Tree.getElem?_nodes_of_lt hlt
  · rw [Tree.slot_of_ge hge]
    exact .elementary .identity

/-- Both tokens have the keys on the path to the active step, each once and in the order in
which they first occur, and under each key what the deepest step with it shows.  With the
boxers that steps are built with, the raw token is the other one with the key in place of each
choice. -/
theorem play_tokens_agree (template : Template) (flag : Bool) (turns : List Turn) :
    let m := (new template flag).play turns
    let path := m.tree.pathTo m.current
    let vkeys := (path.filterMap m.vkeyAt).eraseDups
    (Fields.keys m.boxedToken = vkeys ∧ Fields.keys m.rawToken = vkeys) ∧
      (∀ vkey ∈ vkeys, ∃ id boxed raw, m.Deepest path vkey id ∧
        Fields.get? m.boxedToken vkey = some boxed ∧
          Shows Choice.toJson (m.tree.slot id) boxed ∧
        Fields.get? m.rawToken vkey = some raw ∧
          Shows (m.tree.slot id).unbox (m.tree.slot id) raw) ∧
      ((∀ node ∈ (Tree.ofTemplate template).nodes, node.step.config.boxer.Standard) →
        m.rawToken = m.boxedToken.mapValues Json.unwrapEntry) := by
  intro m path vkeys
  refine ⟨⟨keys_foldl_withEntry m _ path, keys_foldl_withEntry m _ path⟩, ?_, ?_⟩
  · intro vkey hmem
    obtain ⟨id, hdeepest⟩ := exists_deepest (List.mem_eraseDups.1 hmem)
    exact ⟨id, _, _, hdeepest,
      hdeepest.get?_foldl [], shows_entryOf (fun _ value => value.toJson) _,
      hdeepest.get?_foldl [], shows_entryOf Slot.unbox _⟩
  · intro hboxers
    exact rawToken_eq_mapValues (standard_play hboxers flag turns)

/-- A note with tags, whose first key comes back at the end. -/
def noteTemplate : Template :=
  let tags := Step.value "Tags"
  (Chain.start "note" (Step.text "Note")
    |>.next "tags" { tags with config := { tags.config with multivalue := true } }
    |>.next "note" (Step.option "Done" [.ofKey (.bool true)])).build

theorem standard_noteTemplate :
    ∀ node ∈ (Tree.ofTemplate noteTemplate).nodes, node.step.config.boxer.Standard := by
  intro node hmem
  have hnode : node ∈ [_, _, _] := hmem
  rcases List.mem_cons.1 hnode with rfl | hnode
  · exact .elementary .text
  rcases List.mem_cons.1 hnode with rfl | hnode
  · exact .elementary .identity
  obtain rfl := List.mem_singleton.1 hnode
  exact .elementary (.option false)

theorem play_tokens_agree_noteTemplate :
    let m := (new noteTemplate false).play
      [.call (.edit (.setRaw (.str "ant"))), .call .transition, .call (.edit (.setRaw (.str "bee"))),
        .call .archive, .call (.edit (.setRaw (.str "cat"))), .call .transition,
        .call (.edit (.setValue (some (.ofKey (.bool true)))))]
    Fields.keys m.boxedToken = ["note", "tags"] ∧
      m.rawToken = m.boxedToken.mapValues Json.unwrapEntry ∧
      m.boxedToken = [("note", .obj [("key", .bool true)]),
        ("tags", .arr [.obj [("key", .str "bee")], .obj [("key", .str "cat")]])] := by
  intro m
  obtain ⟨⟨hkeys, -⟩, -, hraw⟩ := play_tokens_agree noteTemplate false
    [.call (.edit (.setRaw (.str "ant"))), .call .transition, .call (.edit (.setRaw (.str "bee"))),
      .call .archive, .call (.edit (.setRaw (.str "cat"))), .call .transition,
      .call (.edit (.setValue (some (.ofKey (.bool true)))))]
  exact ⟨hkeys, hraw standard_noteTemplate, rfl⟩

end Machine

end TokenGrammar
