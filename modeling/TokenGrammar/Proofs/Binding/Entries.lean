import TokenGrammar.Proofs.Binding.Restore
import TokenGrammar.Proofs.Machine.PathSound

/-!
# What a restoration sees of a token

A restoration looks at its token in two places: each step on the way looks up its own entry, and
the keys with a value are noted before the first step.  Tokens in which the steps find the same
are therefore walked in the same way, and the keys that are left over differ as the noted ones
do.  So the order of the entries does not matter, nor do entries that are null.
-/

namespace TokenGrammar

/-! ## Entries -/

theorem Fields.get?_eq_some_iff {fields : Fields} (hnodup : fields.keys.Nodup) {key : String}
    {raw : Json} : fields.get? key = some raw ↔ (key, raw) ∈ fields := by
  induction fields with
  | nil => simp [get?]
  | cons field rest ih =>
      obtain ⟨first, value⟩ := field
      obtain ⟨hfirst, hrest⟩ := List.nodup_cons.1 hnodup
      by_cases hkey : first = key
      · subst hkey
        have hnone : (first, raw) ∉ rest := fun hmem => hfirst (List.mem_map.2 ⟨_, hmem, rfl⟩)
        simp [get?, hnone, eq_comm]
      · have hget : get? ((first, value) :: rest) key = get? rest key := by simp [get?, hkey]
        rw [hget, ih hrest]
        simp [Ne.symm hkey]

namespace Machine

open Operation

variable {token other : Token} {key : String} {raw : Json}

theorem isNull_of_isAbsent {multivalue : Bool} (h : isAbsent raw multivalue = false) :
    raw.isNull = false := by
  cases raw <;> first | rfl | cases h

theorem entryFor?_eq_some_iff (hnodup : (Fields.keys token).Nodup) {multivalue : Bool} :
    entryFor? token key multivalue = some raw ↔
      (key, raw) ∈ token ∧ isAbsent raw multivalue = false := by
  rw [entryFor?, Option.filter_eq_some_iff, Fields.get?_eq_some_iff hnodup, Bool.not_eq_true']

theorem nodup_pendingKeys (hnodup : (Fields.keys token).Nodup) : (pendingKeys token).Nodup :=
  hnodup.sublist (List.filter_sublist.map _)

/-- Two tokens with the same values, in any order and with any nulls between them. -/
structure SameValues (token other : Token) : Prop where
  nodup : (Fields.keys token).Nodup
  nodup_other : (Fields.keys other).Nodup
  mem_iff : ∀ key raw, raw.isNull = false → ((key, raw) ∈ other ↔ (key, raw) ∈ token)

theorem SameValues.entryFor?_eq (h : SameValues token other) (key : String) (multivalue : Bool) :
    entryFor? other key multivalue = entryFor? token key multivalue := by
  refine Option.ext fun raw => ?_
  rw [entryFor?_eq_some_iff h.nodup_other, entryFor?_eq_some_iff h.nodup]
  exact and_congr_left fun hpresent => h.mem_iff key raw (isNull_of_isAbsent hpresent)

theorem SameValues.stored?_eq (h : SameValues token other) (node : Node) :
    node.stored? other = node.stored? token :=
  Option.bind_congr fun vkey _ => h.entryFor?_eq vkey _

theorem SameValues.pendingKeys_perm (h : SameValues token other) :
    (pendingKeys other).Perm (pendingKeys token) := by
  refine (List.perm_ext_iff_of_nodup (nodup_pendingKeys h.nodup_other)
    (nodup_pendingKeys h.nodup)).2 fun key => ?_
  rw [mem_pendingKeys, mem_pendingKeys]
  refine exists_congr fun raw => ?_
  exact and_congr_left fun hraw => h.mem_iff key raw hraw

/-! ## Two walks -/

variable {invariant : Machine → Prop} {related : List String → List String → Prop}
  {pending pending' : List String}

theorem agree_goOn (hpreserved : Preserved (fun _ => True) invariant)
    {below below' : List String → Op (List String)}
    (hbelow : Agree invariant related (below pending) (below' pending'))
    (hpending : related pending pending') :
    Agree invariant related (goOn below pending) (goOn below' pending') := by
  refine agree_bind_same (keeps_read _) fun terminal => ?_
  cases terminal with
  | true => exact agree_pure hpending
  | false => exact agree_bind_same (hpreserved.advance trivial) fun _ => hbelow

/-- Tokens in which every step finds the same are walked in the same way. -/
theorem agree_bindFrom (hpreserved : Preserved (fun _ => True) invariant)
    (hsame : ∀ m, invariant m →
      m.currentSlot.node.stored? other = m.currentSlot.node.stored? token)
    (hwithout : ∀ vkey pending pending', related pending pending' →
      related (without pending vkey) (without pending' vkey))
    (rounds : Nat) (hpending : related pending pending') :
    Agree invariant related (bindFrom token rounds pending) (bindFrom other rounds pending') := by
  -- In each round both walks stand on one step, where both tokens have the same entry, so they
  -- take the same branch; only the keys that are left differ.
  induction rounds generalizing pending pending' with
  | zero => exact agree_pure hpending
  | succ rounds ih =>
      have hactivate : Keeps invariant (activate none) :=
        hpreserved.of_inPlace fun _ => keeps_activate none
      refine agree_read_bind fun m hm => ?_
      cases hvkey : m.currentSlot.node.vkey with
      | none =>
          exact agree_bind_same hactivate
            (fun _ => agree_goOn hpreserved (ih hpending) hpending) m hm
      | some vkey =>
          have hentry : entryFor? other vkey m.currentSlot.config.multivalue =
              entryFor? token vkey m.currentSlot.config.multivalue := by
            simpa [Node.stored?, hvkey, Slot.config] using hsame m hm
          have hleft := hwithout vkey _ _ hpending
          simp only [hentry]
          cases entryFor? token vkey m.currentSlot.config.multivalue with
          | none => exact agree_bind_same hactivate (fun _ => agree_pure hleft) m hm
          | some raw =>
              exact agree_bind_same (hpreserved.of_inPlace fun _ => keeps_bindCurrent vkey raw)
                (fun _ => agree_goOn hpreserved (ih hleft) hleft) m hm

theorem agree_walk (hpreserved : Preserved (fun _ => True) invariant)
    (hsame : ∀ m, invariant m →
      m.currentSlot.node.stored? other = m.currentSlot.node.stored? token)
    (hwithout : ∀ vkey pending pending', related pending pending' →
      related (without pending vkey) (without pending' vkey))
    (hpending : related (pendingKeys token) (pendingKeys other)) :
    Agree invariant related (walk token) (walk other) :=
  agree_bind_same hpreserved.reset fun _ => agree_bind_same (keeps_read _) fun rounds =>
    agree_bindFrom hpreserved hsame hwithout rounds hpending

theorem keeps_walk (hpreserved : Preserved (fun _ => True) invariant) (token : Token) :
    Keeps invariant (walk token) :=
  keeps_bind hpreserved.reset fun _ => keeps_bind (keeps_read _) fun _ =>
    hpreserved.bindFrom trivial token _ _

/-- The keys of an error are in their own order, not in that of the token. -/
theorem mergeSort_eq_of_perm {keys keys' : List String} (h : keys'.Perm keys) :
    (keys'.mergeSort fun a b => decide (a ≤ b)) = keys.mergeSort fun a b => decide (a ≤ b) := by
  let le : String → String → Bool := fun a b => decide (a ≤ b)
  have htrans : ∀ a b c, le a b = true → le b c = true → le a c = true := by
    intro a b c hab hbc
    exact decide_eq_true (String.le_trans (of_decide_eq_true hab) (of_decide_eq_true hbc))
  have htotal : ∀ a b, (le a b || le b a) = true := by
    intro a b
    rcases String.le_total a b with hle | hle <;> simp [le, hle]
  have hperm : (keys'.mergeSort le).Perm (keys.mergeSort le) :=
    ((List.mergeSort_perm keys' le).trans h).trans (List.mergeSort_perm keys le).symm
  refine hperm.eq_of_pairwise (fun a b _ _ hab hba => ?_)
    (List.pairwise_mergeSort htrans htotal keys') (List.pairwise_mergeSort htrans htotal keys)
  exact String.le_antisymm (of_decide_eq_true hab) (of_decide_eq_true hba)

theorem finish_eq_of_perm (h : pending'.Perm pending) : finish pending' = finish pending := by
  rw [finish, finish, h.isEmpty_eq, mergeSort_eq_of_perm h]

theorem bindValues_congr {m : Machine}
    (h : (bindPath other).run m = (bindPath token).run m) :
    (bindValues other).run m = (bindValues token).run m := by
  unfold Operation.run bindValues
  rw [h]

/-- A restoration sees of its token the entries that are not null, and nothing else: whatever
their order and whatever keys are mapped to null beside them, it answers the same, or fails with
the same error, and leaves the same machine behind the same events. -/
theorem bindValues_eq_of_sameValues (m : Machine) {token other : Token}
    (h : SameValues token other) : (bindValues other).run m = (bindValues token).run m := by
  have hwalk : Agree (fun _ => True) (fun pending pending' => pending'.Perm pending) (walk token)
      (walk other) :=
    agree_walk .nothing (fun m _ => h.stored?_eq m.currentSlot.node)
      (fun _ _ _ hperm => hperm.filter _) h.pendingKeys_perm
  have hpath : Agree (fun _ => True) Eq (bindPath token) (bindPath other) := by
    rw [bindPath_eq_walk, bindPath_eq_walk]
    refine agree_bind hwalk (keeps_walk .nothing token) fun pending pending' hperm => ?_
    rw [finish_eq_of_perm hperm]
    exact agree_self _
  exact bindValues_congr (hpath.run_eq trivial)

/-- Two keys without a step, in either order and with a null between them. -/
theorem bindValues_eq_of_sameValues_wordTemplate :
    let token : Token := [("word", .str "ant"), ("bees", .str "b"), ("ants", .str "a")]
    let other : Token :=
      [("ants", .str "a"), ("cats", .null), ("bees", .str "b"), ("word", .str "ant")]
    let m := (new wordTemplate false).after [.transition]
    SameValues token other ∧
      ((bindValues other).run m).answer = .error (.failed (.unmatchedValues ["ants", "bees"])) ∧
        (bindValues other).run m = (bindValues token).run m := by
  intro token other m
  have hsame : SameValues token other := by
    refine ⟨by decide, by decide, fun key raw hraw => ?_⟩
    have hnull : raw ≠ .null := by
      rintro rfl
      cases hraw
    simp only [token, other, List.mem_cons, Prod.mk.injEq, hnull, and_false, false_or]
    tauto
  have hsort : (["ants", "bees"].mergeSort fun a b => decide (a ≤ b)) = ["ants", "bees"] :=
    List.mergeSort_of_pairwise (by decide)
  have hleft : ((bindValues other).run m).answer = .error (.failed
      (.unmatchedValues (["ants", "bees"].mergeSort fun a b => decide (a ≤ b)))) := rfl
  rw [hsort] at hleft
  exact ⟨hsame, hleft, bindValues_eq_of_sameValues m hsame⟩

end Machine

end TokenGrammar
