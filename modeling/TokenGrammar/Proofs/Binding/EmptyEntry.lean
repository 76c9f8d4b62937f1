import TokenGrammar.Proofs.Binding.Entries
import TokenGrammar.Proofs.Binding.Written
import TokenGrammar.Proofs.Machine.Output
import TokenGrammar.Proofs.Machine.Reset

/-!
# Entries without values

An entry without values counts as missing on a step that collects them.  But the keys that are
noted before the walk are those of all entries that are not null, so that such an entry is left
over where the walk does not come to a step that asks for it.  Nothing else tells it from an
entry that is not there.
-/

namespace TokenGrammar

/-- The fields without one key. -/
def Fields.erase (fields : Fields) (key : String) : Fields := fields.filter (·.1 != key)

namespace Fields

variable {fields : Fields} {key : String}

theorem mem_erase_iff {field : String × Json} :
    field ∈ fields.erase key ↔ field ∈ fields ∧ field.1 ≠ key := by
  simp [erase]

theorem get?_erase_self (fields : Fields) (key : String) : (fields.erase key).get? key = none := by
  simp [get?, erase]

theorem nodup_keys_erase (h : fields.keys.Nodup) : (fields.erase key).keys.Nodup :=
  h.sublist (List.filter_sublist.map _)

theorem nodup_keys_set (h : fields.keys.Nodup) (value : Json) :
    (fields.set key value).keys.Nodup := by
  rw [keys_set]
  split
  next => exact h
  next hnew =>
    refine List.nodup_append.2 ⟨h, List.nodup_singleton key, fun other hother _ hmem => ?_⟩
    rintro rfl
    exact hnew (List.mem_singleton.1 hmem ▸ hother)

end Fields

namespace Machine

open Operation

variable {tree : Tree} {m m' : Machine} {token : Token} {key : String}

/-- A step on the way to the active one, this one included, has the key. -/
def HasAsked (m : Machine) (key : String) : Prop :=
  ∃ id ∈ m.tree.pathTo m.current, m.vkeyAt id = some key

theorem Holds.hasAsked_iff {visits : List Visit} (h : Holds tree visits m) :
    m.HasAsked key ↔ ∃ visit ∈ visits, (tree.nodeOf visit).vkey = some key := by
  have hvkey (id : Nat) : m.vkeyAt id = (tree.node id).vkey := congrArg Node.vkey (h.node_eq id)
  simp only [HasAsked, h.path_eq, hvkey, List.mem_map, exists_exists_and_eq_and]
  rfl

/-- The keys that are left over are those of the values that no step has asked for. -/
theorem mem_rest_iff (hwired : Wired tree.nodes) (hpos : 0 < tree.size) (hbuilt : Built tree m)
    {rest : List String} (hyields : (walk token).Yields m rest m') :
    key ∈ rest ↔ key ∈ pendingKeys token ∧ ¬ m'.HasAsked key := by
  have hwalk := yields_walk.1 hyields
  have hstands := stands_reset hwired hpos hbuilt
  obtain ⟨path, hroot, hwalks⟩ := walks_of_yields_bindFrom hwired hstands hwalk (size_reset_le m)
  obtain ⟨_, hsame, hholds⟩ := yields_bindFrom_of_walks hwired (pendingKeys token) hstands
    hwalks hroot (size_reset_le m)
  obtain ⟨rfl, rfl⟩ := hwalk.unique hsame
  rw [Tree.mem_struck, Holds.hasAsked_iff hholds]
  simp

/-! ## An empty entry beside the others -/

/-- No step with the key takes a single value. -/
def Collected (tree : Tree) (key : String) : Prop :=
  ∀ node ∈ tree.nodes, node.vkey = some key → node.step.config.multivalue = true

theorem Built.multivalue_of_vkey (h : Built tree m) (hcollected : Collected tree key)
    (hvkey : m.currentSlot.node.vkey = some key) :
    m.currentSlot.node.step.config.multivalue = true := by
  rcases Nat.lt_or_ge m.current m.tree.size with hlt | hge
  · refine hcollected _ ?_ hvkey
    rw [← h.nodes_eq]
    exact List.mem_of_getElem? (Tree.getElem?_nodes_of_lt hlt)
  · rw [currentSlot, Tree.slot_of_ge hge] at hvkey
    cases hvkey

theorem stored?_cons_empty {node : Node} (habsent : Fields.get? token key = none)
    (hcollected : node.vkey = some key → node.step.config.multivalue = true) :
    node.stored? ((key, .arr []) :: token) = node.stored? token := by
  cases hvkey : node.vkey with
  | none => rw [Node.stored?_keyless hvkey, Node.stored?_keyless hvkey]
  | some vkey =>
      simp only [Node.stored?, hvkey, Option.bind_some, entryFor?]
      by_cases hkey : key = vkey
      · subst hkey
        rw [habsent, hcollected hvkey]
        simp [Fields.get?, isAbsent]
      · simp [Fields.get?, hkey]

theorem sameValues_set (hnodup : (Fields.keys token).Nodup) (key : String) (value : Json) :
    SameValues ((key, value) :: Fields.erase token key) (Fields.set token key value) := by
  refine ⟨?_, Fields.nodup_keys_set hnodup value, fun other raw _ => ?_⟩
  · refine List.nodup_cons.2 ⟨fun hmem => ?_, Fields.nodup_keys_erase hnodup⟩
    obtain ⟨field, hfield, hkey⟩ := List.mem_map.1 hmem
    exact (Fields.mem_erase_iff.1 hfield).2 hkey
  · rw [← Fields.get?_eq_some_iff (Fields.nodup_keys_set hnodup value), List.mem_cons,
      Fields.mem_erase_iff, ← Fields.get?_eq_some_iff hnodup]
    by_cases hkey : other = key
    · subst hkey
      simp [Fields.get?_set_self, eq_comm]
    · simp [Fields.get?_set_ne hkey, hkey]

/-- The same keys in any order, but perhaps with one more. -/
def SameBut (key : String) (keys keys' : List String) : Prop :=
  key ∉ keys ∧ (keys'.Perm keys ∨ keys'.Perm (key :: keys))

theorem SameBut.without {keys keys' : List String} (h : SameBut key keys keys') (vkey : String) :
    SameBut key (Machine.without keys vkey) (Machine.without keys' vkey) := by
  obtain ⟨hnot, hperm⟩ := h
  refine ⟨fun hmem => hnot (List.mem_of_mem_filter hmem), ?_⟩
  rcases hperm with hsame | hmore
  · exact .inl (hsame.filter _)
  · have hleft : (Machine.without keys' vkey).Perm (Machine.without (key :: keys) vkey) :=
      hmore.filter _
    by_cases hkey : key = vkey
    · left
      simpa [Machine.without, hkey] using hleft
    · right
      simpa [Machine.without, hkey] using hleft

/-- An entry without values does not change the walk, but perhaps what it leaves over. -/
theorem agree_walk_set_empty (hcollected : Collected tree key)
    (hnodup : (Fields.keys token).Nodup) :
    Agree (Built tree) (SameBut key) (walk (Fields.erase token key))
      (walk (Fields.set token key (.arr []))) := by
  have hset := sameValues_set hnodup key (.arr [])
  have hnot : key ∉ pendingKeys (Fields.erase token key) := by
    rw [mem_pendingKeys]
    rintro ⟨raw, hmem, -⟩
    exact (Fields.mem_erase_iff.1 hmem).2 rfl
  have hpending : SameBut key (pendingKeys (Fields.erase token key))
      (pendingKeys (Fields.set token key (.arr []))) := ⟨hnot, .inr hset.pendingKeys_perm⟩
  refine agree_walk built_preserved (fun m hm => ?_) (fun vkey _ _ h => h.without vkey) hpending
  rw [hset.stored?_eq]
  exact stored?_cons_empty (Fields.get?_erase_self token key) (hm.multivalue_of_vkey hcollected)

/-- Both walks halt, or both come to an end: with the same keys left over if a step has asked for
the key of the entry without values, and with one key more if none has. -/
theorem walk_set_empty_cases (hwired : Wired tree.nodes) (hpos : 0 < tree.size)
    (hbuilt : Built tree m) (hcollected : Collected tree key)
    (hnodup : (Fields.keys token).Nodup) :
    (∃ reason after events,
      (walk (Fields.erase token key)).run m = ⟨.error reason, after, events⟩ ∧
        (walk (Fields.set token key (.arr []))).run m = ⟨.error reason, after, events⟩) ∨
    (∃ rest rest' after events,
      (walk (Fields.erase token key)).run m = ⟨.ok rest, after, events⟩ ∧
        (walk (Fields.set token key (.arr []))).run m = ⟨.ok rest', after, events⟩ ∧
          after.HasAsked key ∧ rest'.Perm rest) ∨
    ∃ rest rest' after events,
      (walk (Fields.erase token key)).run m = ⟨.ok rest, after, events⟩ ∧
        (walk (Fields.set token key (.arr []))).run m = ⟨.ok rest', after, events⟩ ∧
          ¬ after.HasAsked key ∧ rest'.Perm (key :: rest) := by
  have halike := agree_walk_set_empty hcollected hnodup m hbuilt
  have hpending : key ∈ pendingKeys (Fields.set token key (.arr [])) :=
    mem_pendingKeys.2 ⟨.arr [], (Fields.get?_eq_some_iff (Fields.nodup_keys_set hnodup _)).1
      (Fields.get?_set_self token key _), rfl⟩
  generalize hwalk : (walk (Fields.erase token key)).run m = outcome at halike
  generalize hwalk' : (walk (Fields.set token key (.arr []))).run m = outcome' at halike
  cases halike with
  | halted => exact .inl ⟨_, _, _, rfl, rfl⟩
  | @answered rest rest' after events hrest =>
      have hyields : (walk (Fields.set token key (.arr []))).Yields m rest' after := by
        rw [Yields, hwalk']
        exact ⟨rfl, rfl⟩
      have hkey : key ∈ rest' ↔ ¬ after.HasAsked key := by
        rw [mem_rest_iff hwired hpos hbuilt hyields]
        exact and_iff_right hpending
      -- The two cases of `SameBut` differ in whether the key is left over.
      obtain ⟨hnot, hsame | hmore⟩ := hrest
      · have hasked : after.HasAsked key := by
          by_contra hnever
          exact hnot (hsame.mem_iff.1 (hkey.2 hnever))
        exact .inr (.inl ⟨rest, rest', after, events, rfl, rfl, hasked, hsame⟩)
      · have hnever : ¬ after.HasAsked key := hkey.1 (hmore.mem_iff.2 List.mem_cons_self)
        exact .inr (.inr ⟨rest, rest', after, events, rfl, rfl, hnever, hmore⟩)

/-- An entry without values makes no difference where the walk of the other entries halts or
comes to a step with its key.  Where it ends without one, the key is left over besides those that
are left over anyway. -/
theorem bindValues_set_empty (template : Template) (flag : Bool) (commands : List Command)
    (token : Token) (hnodup : (Fields.keys token).Nodup) (key : String)
    (hcollected : Collected (Tree.ofTemplate template) key) :
    let m := (new template flag).after commands
    let empty := Fields.set token key (.arr [])
    let absent := Fields.erase token key
    let walked := (walk absent).run m
    ((∀ rest, walked.answer = .ok rest → walked.state.HasAsked key) →
        (bindValues empty).run m = (bindValues absent).run m) ∧
      ∀ rest, walked.answer = .ok rest → ¬ walked.state.HasAsked key →
        ((bindValues empty).run m).answer = .error (.failed
          (.unmatchedValues ((key :: rest).mergeSort fun a b => decide (a ≤ b)))) := by
  intro m empty absent walked
  rcases walk_set_empty_cases (Tree.wired_ofTemplate template) (Tree.size_ofTemplate_pos template)
    (built_after template flag commands) hcollected hnodup with
    ⟨reason, after, events, hwalk, hwalk'⟩ |
    ⟨rest, rest', after, events, hwalk, hwalk', hasked, hperm⟩ |
    ⟨rest, rest', after, events, hwalk, hwalk', hnever, hperm⟩
  all_goals
    have hwalked : walked = _ := hwalk
    rw [hwalked]
  · refine ⟨fun _ => bindValues_congr ?_, fun rest hok => by cases hok⟩
    rw [bindPath_eq_walk, bindPath_eq_walk, run_bind_of_error hwalk, run_bind_of_error hwalk']
  · refine ⟨fun _ => bindValues_congr ?_, fun _ _ hnever => absurd hasked hnever⟩
    rw [bindPath_eq_walk, bindPath_eq_walk, run_bind_of_ok hwalk, run_bind_of_ok hwalk',
      finish_eq_of_perm hperm]
  · refine ⟨fun hasked => absurd (hasked rest rfl) hnever, fun left hleft _ => ?_⟩
    obtain rfl := Except.ok.inj hleft
    rw [bindValues_answer, bindPath_eq_walk, run_bind_of_ok hwalk', finish_eq_of_perm hperm]
    rfl

/-- A word, any number of tags, and the end of the token. -/
def taggedTemplate : Template :=
  let tags := Step.value "Tags"
  (Chain.start "word" (Step.text "Word")
    |>.next "tags" { tags with config := { tags.config with multivalue := true } }
    |>.next none Step.terminal).build

theorem collected_taggedTemplate : Collected (Tree.ofTemplate taggedTemplate) "tags" := by
  intro node hmem hvkey
  obtain rfl | rfl | rfl : node = _ ∨ node = _ ∨ node = _ := by
    simpa [taggedTemplate, Chain.start, Chain.next, Chain.build, Chain.branch, Chain.above,
      Tree.nodes, Tree.ofTemplate, Tree.slotsOf, Tree.slotsOfAll, Slot.fresh] using hmem
  · exact absurd hvkey (by decide)
  · rfl
  · cases hvkey

/-- Behind the word the walk ends at the tags, as it does without an entry for them. -/
theorem bindValues_set_empty_taggedTemplate :
    let token : Token := [("word", .str "ant")]
    let m := (new taggedTemplate true).after [.transition]
    (Fields.keys token).Nodup ∧ Collected (Tree.ofTemplate taggedTemplate) "tags" ∧
      ((walk token).run m).state.HasAsked "tags" ∧
        ((bindValues token).run m).answer = .ok () ∧
          (bindValues [("word", .str "ant"), ("tags", .arr [])]).run m =
            (bindValues token).run m := by
  intro token m
  have hnodup : (Fields.keys token).Nodup := by decide
  have hasked : ((walk token).run m).state.HasAsked "tags" := ⟨1, by decide, rfl⟩
  obtain ⟨hsame, -⟩ := bindValues_set_empty taggedTemplate true [.transition] token hnodup "tags"
    collected_taggedTemplate
  exact ⟨hnodup, collected_taggedTemplate, hasked, rfl, hsame fun _ _ => hasked⟩

/-- Without a word the walk ends before the tags, whose entry is then one too many. -/
theorem bindValues_set_empty_left_over :
    let m := new taggedTemplate true
    Collected (Tree.ofTemplate taggedTemplate) "tags" ∧
      Fields.set [] "tags" (.arr []) = [("tags", .arr [])] ∧
        ((bindValues [("tags", .arr [])]).run m).answer =
          .error (.failed (.unmatchedValues ["tags"])) ∧
            ((bindValues (Fields.erase [("tags", .arr [])] "tags")).run m).answer = .ok () := by
  intro m
  have hleft : ((bindValues [("tags", .arr [])]).run m).answer = .error (.failed
      (.unmatchedValues (["tags"].mergeSort fun a b => decide (a ≤ b)))) := rfl
  rw [List.mergeSort_singleton] at hleft
  exact ⟨collected_taggedTemplate, rfl, hleft, rfl⟩

end Machine

end TokenGrammar
