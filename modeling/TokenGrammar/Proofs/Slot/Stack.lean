import Mathlib.Data.List.Induction
import Mathlib.Data.List.Infix
import TokenGrammar.Proofs.Slot.Archive

/-!
# The archive as a stack

Values go to the end of the archive and come back from there.  A run of calls that never takes
more values back than it has put in leaves whatever was archived before it alone, and each
value that comes back is the one that was put in last and has not come back yet.  Which call
put it in is said by counting alone: everything archived since then has come back.
-/

namespace TokenGrammar

/-- A call on the value, on the preview or on the end of the archive. -/
def Edit.Stacking : Edit → Prop
  | .setValue _ | .setRaw _ | .setPreview _ | .setRawPreview _ | .archive | .unarchive => True
  | _ => False

namespace Slot

open Operation

/-! ## Counting along a run -/

/-- Whether the slot answers a call. -/
def succeeds (s : Slot) (edit : Edit) : Bool := ((perform edit).run s).answer.isOk

/-- The slot after a run of calls, whatever came of each. -/
def after (s : Slot) (edits : List Edit) : Slot :=
  edits.foldl (fun s edit => ((perform edit).run s).state) s

/-- What a call counts for: an archival that succeeds for one more, an unarchival that succeeds
for one less. -/
def gain (s : Slot) (edit : Edit) : Int :=
  match edit with
  | .archive => if s.succeeds .archive then 1 else 0
  | .unarchive => if s.succeeds .unarchive then -1 else 0
  | _ => 0

/-- The archivals that succeed in a run less the unarchivals that succeed. -/
def surplus : Slot → List Edit → Int
  | _, [] => 0
  | s, edit :: edits => s.gain edit + (s.after [edit]).surplus edits

/-- No part of the run from its start on takes more values back than it archives. -/
def Covered (s : Slot) (edits : List Edit) : Prop :=
  ∀ start, start <+: edits → 0 ≤ s.surplus start

/-- All values that the run archives are taken back in it, and no others. -/
structure Balanced (s : Slot) (edits : List Edit) : Prop where
  covered : s.Covered edits
  even : s.surplus edits = 0

variable {s : Slot} {edits later : List Edit} {edit : Edit}

theorem after_append (s : Slot) (edits later : List Edit) :
    s.after (edits ++ later) = (s.after edits).after later :=
  List.foldl_append

theorem surplus_append (s : Slot) (edits later : List Edit) :
    s.surplus (edits ++ later) = s.surplus edits + (s.after edits).surplus later := by
  induction edits generalizing s with
  | nil => exact (Int.zero_add _).symm
  | cons edit edits ih =>
      have hafter : s.after (edit :: edits) = (s.after [edit]).after edits := rfl
      rw [List.cons_append, surplus, surplus, ih, hafter, Int.add_assoc]

@[simp] theorem surplus_singleton (s : Slot) (edit : Edit) : s.surplus [edit] = s.gain edit :=
  Int.add_zero _

theorem Covered.of_prefix (h : s.Covered later) (hpart : edits <+: later) :
    s.Covered edits :=
  fun start hstart => h start (hstart.trans hpart)

theorem covered_nil (s : Slot) : s.Covered [] := by
  intro start hstart
  rw [List.prefix_nil.1 hstart]
  exact Int.le_refl 0

theorem Covered.concat (h : s.Covered edits) (hlast : 0 ≤ s.surplus (edits ++ [edit])) :
    s.Covered (edits ++ [edit]) := by
  intro start hstart
  rcases List.prefix_concat_iff.1 hstart with rfl | hstart
  · exact hlast
  · exact h start hstart

/-- Only an archival that succeeds makes the count go up. -/
theorem archives_of_gain_pos (h : 0 < s.gain edit) :
    edit = .archive ∧ s.succeeds .archive = true ∧ s.gain edit = 1 := by
  cases edit with
  | archive =>
      cases hsuccess : s.succeeds .archive with
      | true => exact ⟨rfl, rfl, by simp [gain, hsuccess]⟩
      | false => simp [gain, hsuccess] at h
  | unarchive =>
      simp only [gain] at h
      split at h <;> omega
  | _ => exact absurd h (Int.lt_irrefl 0)

theorem surplus_around {before between : List Edit}
    (h : (s.after before).succeeds .archive = true) :
    s.surplus (before ++ .archive :: between) =
      s.surplus before + 1 + (s.after (before ++ [.archive])).surplus between := by
  have hone : (s.after before).gain .archive = 1 := by simp [gain, h]
  rw [surplus_append, surplus, hone, after_append]
  omega

/-- Every count below the one at the end is passed for the last time by an archival. -/
theorem exists_archival_at {level : Int} (hlevel : 0 ≤ level) (hlt : level < s.surplus edits) :
    ∃ before between, edits = before ++ .archive :: between ∧
      (s.after before).succeeds .archive = true ∧ s.surplus before = level ∧
        (s.after (before ++ [.archive])).Covered between := by
  induction edits using List.reverseRecOn with
  | nil => exact absurd hlt (Int.not_lt.2 hlevel)
  | append_singleton edits edit ih =>
      rw [surplus_append, surplus_singleton] at hlt
      by_cases hbefore : level < s.surplus edits
      · obtain ⟨before, between, rfl, hsuccess, hcount, hcovered⟩ := ih hbefore
        refine ⟨before, between ++ [edit], by simp, hsuccess, hcount, hcovered.concat ?_⟩
        have htotal : s.surplus (before ++ .archive :: between ++ [edit]) =
            s.surplus before + 1 +
              (s.after (before ++ [.archive])).surplus (between ++ [edit]) := by
          rw [List.append_assoc, List.cons_append, surplus_around hsuccess]
        rw [surplus_append, surplus_singleton] at htotal
        omega
      · have hup : 0 < (s.after edits).gain edit := by omega
        obtain ⟨rfl, hsuccess, hone⟩ := archives_of_gain_pos hup
        exact ⟨edits, [], rfl, hsuccess, by omega, covered_nil _⟩

/-! ## Single calls -/

/-- What a call on the value, on the preview or on the end of the archive comes to. -/
inductive Moves (s : Slot) (edit : Edit) : Prop where
  | archives (value : Choice) (call : edit = .archive) (success : s.succeeds .archive = true)
      (held : s.value = some value) (grown : (s.after [.archive]).archive = s.archive ++ [value])
  | restores (value : Choice) (call : edit = .unarchive)
      (success : s.succeeds .unarchive = true)
      (last : s.archive = (s.after [.unarchive]).archive ++ [value])
      (restored : (s.after [.unarchive]).value = some value)
  | leaves (uncounted : s.gain edit = 0) (kept : (s.after [edit]).archive = s.archive)

/-- A call that tries an action has the action's state, and it succeeds if the action does. -/
theorem attempted {η : Type} (edit : Edit) {act : Slot → Outcome Slot SlotEvent (Except η Unit)}
    {lift : η → Halt SlotError}
    (h : perform edit = attempt act lift >>= fun _ => pure Answer.done) (s : Slot) :
    s.after [edit] = (act s).state ∧ s.succeeds edit = (act s).answer.isOk := by
  have hrun : (perform edit).run s = _ := h ▸ run_bind_pure (attempt act lift) _ s
  refine ⟨congrArg Outcome.state hrun, ?_⟩
  rw [succeeds, hrun]
  cases hact : act s with
  | mk answer t events => cases answer <;> simp [Operation.run, attempt, hact] <;> rfl

theorem moves_archive (s : Slot) : s.Moves .archive := by
  obtain ⟨hafter, hsucceeds⟩ := attempted .archive rfl s
  cases harchivable : s.archivable with
  | error error =>
      have hact : s.archiveValue = ⟨.error error, s, []⟩ := by
        simp [archiveValue, harchivable]
      rw [hact] at hafter hsucceeds
      exact .leaves (by simp [gain, hsucceeds, Except.isOk, Except.toBool]) (by rw [hafter])
  | ok value =>
      obtain ⟨-, -, -, hvalue⟩ := (archivable_eq_ok_iff value).1 harchivable
      simp only [archiveValue, harchivable] at hafter hsucceeds
      exact .archives value rfl hsucceeds hvalue (by rw [hafter])

theorem moves_unarchive (s : Slot) : s.Moves .unarchive := by
  obtain ⟨hafter, hsucceeds⟩ := attempted .unarchive rfl s
  cases hlast : s.archive.getLast? with
  | none =>
      have hact : s.unarchiveValue = ⟨.error (.empty s.name), s, []⟩ := by
        simp only [unarchiveValue, hlast]
      rw [hact] at hafter hsucceeds
      exact .leaves (by simp [gain, hsucceeds, Except.isOk, Except.toBool]) (by rw [hafter])
  | some value =>
      simp only [unarchiveValue, hlast] at hafter hsucceeds
      refine .restores value rfl hsucceeds ?_ (by rw [hafter])
      rw [hafter]
      exact (List.dropLast_append_getLast? value hlast).symm

theorem moves_of_stacking (h : edit.Stacking) (s : Slot) : s.Moves edit := by
  cases edit with
  | setValue value? => exact .leaves rfl rfl
  | setRaw raw =>
      refine .leaves rfl ?_
      rw [after, List.foldl_cons, perform, run_bind_pure, List.foldl_nil]
      exact (loading_archive s.archive).enter raw s rfl
  | setPreview preview? => exact .leaves rfl rfl
  | setRawPreview raw =>
      refine .leaves rfl ?_
      obtain ⟨hafter, -⟩ := attempted (.setRawPreview raw) rfl s
      rw [hafter, setRawPreview]
      cases s.box raw <;> rfl
  | archive => exact moves_archive s
  | unarchive => exact moves_unarchive s
  | _ => exact h.elim

theorem exists_archived (h : s.succeeds .archive = true) :
    ∃ value, s.value = some value ∧ (s.after [.archive]).archive = s.archive ++ [value] := by
  cases moves_archive s with
  | archives value call success held grown => exact ⟨value, held, grown⟩
  | restores value call => cases call
  | leaves uncounted => simp [gain, h] at uncounted

theorem exists_restored (h : s.succeeds .unarchive = true) :
    ∃ value, s.archive = (s.after [.unarchive]).archive ++ [value] ∧
      (s.after [.unarchive]).value = some value := by
  cases moves_unarchive s with
  | archives value call => cases call
  | restores value call success last restored => exact ⟨value, last, restored⟩
  | leaves uncounted => simp [gain, h] at uncounted

/-- A call that fails leaves the archive as it is. -/
theorem Moves.archive_of_fails (h : s.Moves edit) (hfails : s.succeeds edit = false) :
    (s.after [edit]).archive = s.archive := by
  cases h with
  | archives value call success => simp [call, success] at hfails
  | restores value call success => simp [call, success] at hfails
  | leaves uncounted kept => exact kept

/-! ## Runs -/

/-- The archive holds what it held before, and behind it as many values as there were more
archivals than unarchivals. -/
theorem exists_archived_behind (hedits : ∀ edit ∈ edits, edit.Stacking)
    (hcovered : s.Covered edits) :
    ∃ more, (s.after edits).archive = s.archive ++ more ∧
      (more.length : Int) = s.surplus edits := by
  induction edits using List.reverseRecOn with
  | nil => exact ⟨[], (List.append_nil _).symm, rfl⟩
  | append_singleton edits edit ih =>
      obtain ⟨more, harchive, hlength⟩ := ih
        (fun other hother => hedits other (List.mem_append_left _ hother))
        (hcovered.of_prefix (List.prefix_append ..))
      have hpositive : 0 ≤ s.surplus (edits ++ [edit]) := hcovered _ (List.prefix_refl _)
      have hmoves := moves_of_stacking (hedits edit (by simp)) (s.after edits)
      rw [surplus_append, surplus_singleton] at hpositive ⊢
      rw [after_append]
      cases hmoves with
      | archives value call success held grown =>
          subst call
          refine ⟨more ++ [value], by rw [grown, harchive, List.append_assoc], ?_⟩
          simp [gain, success, ← hlength]
      | restores value call success last restored =>
          subst call
          have hgain : (s.after edits).gain .unarchive = -1 := by simp [gain, success]
          rw [hgain] at hpositive ⊢
          -- Something was archived in this run, so that it is the last of these that comes back.
          obtain rfl | ⟨rest, final, rfl⟩ := more.eq_nil_or_concat
          · rw [List.length_nil] at hlength
            omega
          · rw [harchive, List.concat_eq_append, ← List.append_assoc] at last
            obtain ⟨hrest, -⟩ := List.append_inj' last rfl
            refine ⟨rest, hrest.symm, ?_⟩
            simp only [List.length_concat] at hlength
            omega
      | leaves uncounted kept =>
          exact ⟨more, kept.trans harchive, by rw [uncounted, hlength, Int.add_zero]⟩

theorem Balanced.archive_eq (h : s.Balanced edits) (hedits : ∀ edit ∈ edits, edit.Stacking) :
    (s.after edits).archive = s.archive := by
  obtain ⟨more, harchive, hlength⟩ := exists_archived_behind hedits h.covered
  rw [h.even] at hlength
  obtain rfl : more = [] := List.eq_nil_of_length_eq_zero (by omega)
  rw [harchive, List.append_nil]

/-- The value that comes back is the one that the last archival not undone has taken. -/
theorem exists_matching (hedits : ∀ edit ∈ edits, edit.Stacking)
    (hpositive : 0 < s.surplus edits)
    (hsuccess : (s.after edits).succeeds .unarchive = true) :
    ∃ before between, edits = before ++ .archive :: between ∧
      (s.after before).succeeds .archive = true ∧
        (s.after (before ++ [.archive])).Balanced between ∧
          (s.after (edits ++ [.unarchive])).value = (s.after before).value := by
  have hlevel : 0 ≤ s.surplus edits - 1 := by omega
  obtain ⟨before, between, rfl, harchived, hcount, hcovered⟩ :=
    exists_archival_at hlevel (Int.sub_lt_self _ Int.one_pos)
  rw [surplus_around harchived] at hcount
  have hbalanced : (s.after (before ++ [.archive])).Balanced between := ⟨hcovered, by omega⟩
  have hkept := hbalanced.archive_eq fun edit hedit => hedits edit (by simp [hedit])
  refine ⟨before, between, rfl, harchived, hbalanced, ?_⟩
  have hsplit : s.after (before ++ .archive :: between) =
      (s.after (before ++ [.archive])).after between := by
    rw [← after_append, List.append_assoc, List.singleton_append]
  obtain ⟨value, hheld, hgrown⟩ := exists_archived harchived
  obtain ⟨last, hlast, hrestored⟩ := exists_restored hsuccess
  -- What the unarchival takes from the end of the archive is what the archival put there.
  rw [hsplit, hkept, after_append, hgrown] at hlast
  obtain ⟨-, heq⟩ := List.append_inj' hlast rfl
  rw [after_append, hrestored, hheld, List.singleton_inj.1 heq]

/-- In a run of edits of the value and the preview, of archivals and unarchivals, no part of
which from its start on takes more values back than it archives, the archive keeps what it held
at the start, and behind it stand as many values as there were more archivals than unarchivals
that succeeded.  Every unarchival that succeeds makes that the value which was the value before
the last archival not undone by then.  Calls that fail leave the archive as it is. -/
theorem after_stacks (s : Slot) (edits : List Edit) (hedits : ∀ edit ∈ edits, edit.Stacking)
    (hcovered : s.Covered edits) :
    (∀ start, start <+: edits → ∃ more, (s.after start).archive = s.archive ++ more ∧
      (more.length : Int) = s.surplus start) ∧
    (∀ start, start ++ [.unarchive] <+: edits →
      (s.after start).succeeds .unarchive = true →
        ∃ before between, start = before ++ .archive :: between ∧
          (s.after before).succeeds .archive = true ∧
            (s.after (before ++ [.archive])).Balanced between ∧
              (s.after (start ++ [.unarchive])).value = (s.after before).value) ∧
    (∀ start, start <+: edits → s.surplus start = 0 → (s.after start).archive = s.archive) ∧
    (∀ start edit, start ++ [edit] <+: edits → (s.after start).succeeds edit = false →
      (s.after (start ++ [edit])).archive = (s.after start).archive) := by
  have hstart {start : List Edit} (hpart : start <+: edits) :
      ∀ edit ∈ start, edit.Stacking :=
    fun edit hedit => hedits edit (hpart.subset hedit)
  refine ⟨fun start hpart => ?_, fun start hpart hsuccess => ?_,
    fun start hpart heven => ?_, fun start edit hpart hfails => ?_⟩
  · exact exists_archived_behind (hstart hpart) (hcovered.of_prefix hpart)
  · have hinit : start <+: edits := (List.prefix_append ..).trans hpart
    have hafter : 0 ≤ s.surplus (start ++ [.unarchive]) := hcovered _ hpart
    have hdown : (s.after start).gain .unarchive = -1 := by simp [gain, hsuccess]
    rw [surplus_append, surplus_singleton, hdown] at hafter
    exact exists_matching (hstart hinit) (by omega) hsuccess
  · have hbalanced : s.Balanced start := ⟨hcovered.of_prefix hpart, heven⟩
    exact hbalanced.archive_eq (hstart hpart)
  · rw [after_append]
    exact (moves_of_stacking (hstart hpart edit (by simp)) _).archive_of_fails hfails

/-- The second tag finds the archive full, a preview and an empty value come in between, and the
first tag comes back. -/
theorem after_stacks_tagsNode :
    let s := { fresh tagsNode with archive := [.ofKey (.str "ant")] }
    let start : List Edit := [.setRaw (.str "bee"), .archive, .setRaw (.str "cat"), .archive,
      .setRawPreview (.str "dog"), .setValue none]
    let edits := start ++ [.unarchive]
    (∀ edit ∈ edits, edit.Stacking) ∧ s.Covered edits ∧
      (s.after start).value = none ∧ s.surplus start = 1 ∧ s.surplus edits = 0 ∧
        (s.after edits).archive = [.ofKey (.str "ant")] ∧
          ∃ before between, start = before ++ .archive :: between ∧
            (s.after (before ++ [.archive])).Balanced between ∧
              (s.after edits).value = (s.after before).value := by
  intro s start edits
  have hedits : ∀ edit ∈ edits, edit.Stacking := by simp [edits, start, Edit.Stacking]
  have hcovered : s.Covered edits := by
    intro first hfirst
    have hmem : first ∈ edits.inits := (List.mem_inits first edits).2 hfirst
    simp only [edits, start, List.cons_append, List.nil_append, List.inits, List.map_cons,
      List.map_nil, List.mem_cons, List.not_mem_nil, or_false] at hmem
    rcases hmem with rfl | rfl | rfl | rfl | rfl | rfl | rfl | rfl <;> decide
  have hsuccess : (s.after start).succeeds .unarchive = true := by decide
  have hone : s.surplus start = 1 := by decide
  have hnothing : s.surplus edits = 0 := by decide
  obtain ⟨-, hrestores, heven, -⟩ := after_stacks s edits hedits hcovered
  obtain ⟨before, between, hsplit, -, hbalanced, hvalue⟩ :=
    hrestores start (List.prefix_refl _) hsuccess
  exact ⟨hedits, hcovered, rfl, hone, hnothing, heven edits (List.prefix_refl _) hnothing, before,
    between, hsplit, hbalanced, hvalue⟩

end Slot

end TokenGrammar
