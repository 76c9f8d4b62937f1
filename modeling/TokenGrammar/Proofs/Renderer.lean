import Mathlib.Data.List.Dedup
import Mathlib.Data.List.Find
import Mathlib.Data.List.Induction
import TokenGrammar.Renderer

/-!
# Which renderer serves a kind

A registry is filled by registrations, in any order and with any number of replacements.  A kind
is served by the renderer that was registered last for the nearest kind of its ancestry for which
there is one at all, and by nothing else that was ever registered.
-/

namespace TokenGrammar

namespace StepKind

/-- The kinds that need no declaration. -/
def builtIn : List StepKind :=
  [state, label, terminal, option, value, textEntry, numericEntry, currencyEntry, dateTimeEntry]

theorem isA_iff {kind other : StepKind} : kind.isA other = true ↔ other ∈ kind.ancestry := by
  rw [isA, List.contains_iff_mem]

/-- Every kind falls back to the most general one in the end. -/
theorem state_mem_ancestry (kind : StepKind) : state ∈ kind.ancestry := by
  induction kind with
  | custom name fallback ih => exact List.mem_cons_of_mem _ ih
  | _ => decide

theorem custom_inj {name name' : String} {fallback fallback' : StepKind} :
    custom name fallback = custom name' fallback' ↔ name = name' ∧ fallback = fallback' := by
  rw [custom.injEq]

theorem custom_not_mem_builtIn (name : String) (fallback : StepKind) :
    custom name fallback ∉ builtIn := by
  simp [builtIn]

end StepKind

/-- A call that registers a renderer for a kind: in place, or on the way to a further call. -/
inductive Registration (ρ : Type) where
  | register (kind : StepKind) (renderer : ρ)
  | adding (kind : StepKind) (renderer : ρ)

namespace Registration

variable {ρ : Type}

def kind : Registration ρ → StepKind
  | register kind _ | adding kind _ => kind

def renderer : Registration ρ → ρ
  | register _ renderer | adding _ renderer => renderer

/-- The last call for the kind registers the renderer. -/
def Latest (calls : List (Registration ρ)) (kind : StepKind) (renderer : ρ) : Prop :=
  ∃ earlier call later, calls = earlier ++ call :: later ∧ call.kind = kind ∧
    call.renderer = renderer ∧ kind ∉ later.map Registration.kind

variable {calls : List (Registration ρ)} {call : Registration ρ} {kind : StepKind} {renderer : ρ}

theorem not_latest_nil : ¬ Latest [] kind renderer := by
  rintro ⟨earlier, call, later, hcalls, -⟩
  simp at hcalls

/-- A further call decides about its own kind and about no other one. -/
theorem latest_concat :
    Latest (calls ++ [call]) kind renderer ↔
      if kind = call.kind then call.renderer = renderer else Latest calls kind renderer := by
  constructor
  · rintro ⟨earlier, last, later, hcalls, rfl, rfl, hlast⟩
    rcases List.eq_nil_or_concat later with rfl | ⟨later, final, rfl⟩
    · obtain ⟨-, hcall⟩ := List.append_inj' hcalls rfl
      obtain rfl := List.singleton_inj.1 hcall
      rw [if_pos rfl]
    · rw [List.concat_eq_append, ← List.cons_append, ← List.append_assoc] at hcalls
      obtain ⟨rfl, hcall⟩ := List.append_inj' hcalls rfl
      obtain rfl := List.singleton_inj.1 hcall
      rw [List.concat_eq_append, List.map_append, List.mem_append, not_or] at hlast
      rw [if_neg (by simpa using hlast.2)]
      exact ⟨earlier, last, later, rfl, rfl, rfl, hlast.1⟩
  · split
    next hkind =>
      rintro rfl
      exact ⟨calls, call, [], rfl, hkind.symm, rfl, List.not_mem_nil⟩
    next hkind =>
      rintro ⟨earlier, last, later, rfl, rfl, rfl, hlast⟩
      refine ⟨earlier, last, later ++ [call], by simp, rfl, rfl, ?_⟩
      simpa [hkind] using hlast

end Registration

namespace Registry

variable {ρ : Type} {registry : Registry ρ} {kind : StepKind} {renderer : ρ}

/-- The kinds that have a renderer of their own. -/
def kinds (registry : Registry ρ) : List StepKind := registry.entries.map (·.1)

def apply (registry : Registry ρ) : Registration ρ → Registry ρ
  | .register kind renderer => (registry.register kind renderer).2
  | .adding kind renderer => registry.adding kind renderer

/-- The registry that a run of calls makes of an empty one. -/
def after (calls : List (Registration ρ)) : Registry ρ := calls.foldl apply {}

theorem apply_eq (registry : Registry ρ) (call : Registration ρ) :
    registry.apply call =
      ⟨(call.kind, call.renderer) :: registry.entries.filter fun e => e.1 != call.kind⟩ := by
  cases call <;> rfl

theorem after_concat (calls : List (Registration ρ)) (call : Registration ρ) :
    after (calls ++ [call]) = (after calls).apply call :=
  List.foldl_concat ..

/-! ## One call -/

theorem find?_eq_none_iff : registry.find? kind = none ↔ kind ∉ registry.kinds := by
  simp only [find?, kinds, Option.map_eq_none_iff, List.find?_eq_none, beq_iff_eq, List.mem_map,
    not_exists, not_and]

theorem find?_apply (registry : Registry ρ) (call : Registration ρ) (kind : StepKind) :
    (registry.apply call).find? kind =
      if kind = call.kind then some call.renderer else registry.find? kind := by
  rw [apply_eq]
  by_cases hkind : kind = call.kind
  · simp [find?, hkind]
  · have hfirst : (call.kind == kind) = false := by simpa using Ne.symm hkind
    have hrest : (registry.entries.filter fun e => e.1 != call.kind).find? (fun e => e.1 == kind) =
        registry.entries.find? fun e => e.1 == kind := by
      rw [List.find?_filter]
      refine List.find?_congr fun e _ => ?_
      by_cases hentry : e.1 = kind <;> simp [hentry, hkind]
    rw [if_neg hkind, find?, find?, List.find?_cons, hfirst, hrest]

theorem mem_kinds_apply {call : Registration ρ} :
    kind ∈ (registry.apply call).kinds ↔ kind = call.kind ∨ kind ∈ registry.kinds := by
  by_cases hkind : kind = call.kind <;> simp [apply_eq, kinds, hkind]

theorem nodup_kinds_apply (h : registry.kinds.Nodup) (call : Registration ρ) :
    (registry.apply call).kinds.Nodup := by
  have hrest : ((registry.entries.filter fun e => e.1 != call.kind).map (·.1)).Nodup :=
    h.sublist (List.filter_sublist.map _)
  rw [apply_eq]
  exact List.nodup_cons.2 ⟨by simp, hrest⟩

/-! ## A run of calls -/

theorem find?_after_eq_some_iff {calls : List (Registration ρ)} :
    (after calls).find? kind = some renderer ↔ Registration.Latest calls kind renderer := by
  induction calls using List.reverseRecOn with
  | nil => simp [after, find?, Registration.not_latest_nil]
  | append_singleton calls call ih =>
      rw [after_concat, find?_apply, Registration.latest_concat]
      split
      · exact Option.some_inj
      · exact ih

theorem kinds_after (calls : List (Registration ρ)) :
    (after calls).kinds.Perm (calls.map Registration.kind).dedup := by
  have hnodup : (after calls).kinds.Nodup ∧
      ∀ kind, kind ∈ (after calls).kinds ↔ kind ∈ calls.map Registration.kind := by
    induction calls using List.reverseRecOn with
    | nil => simp [after, kinds]
    | append_singleton calls call ih =>
        rw [after_concat]
        refine ⟨nodup_kinds_apply ih.1 call, fun kind => ?_⟩
        rw [mem_kinds_apply, ih.2]
        simp [or_comm]
  refine (List.perm_ext_iff_of_nodup hnodup.1 (List.nodup_dedup _)).2 fun kind => ?_
  rw [hnodup.2, List.mem_dedup]

theorem find?_after_eq_none_iff {calls : List (Registration ρ)} :
    (after calls).find? kind = none ↔ kind ∉ calls.map Registration.kind := by
  rw [find?_eq_none_iff, (kinds_after calls).mem_iff, List.mem_dedup]

/-! ## Resolution -/

theorem resolve_eq_ok_iff :
    registry.resolve kind = .ok renderer ↔ registry.resolve? kind = some renderer := by
  rw [resolve]
  cases registry.resolve? kind <;> simp

theorem resolve_eq_error_iff {error : NoRenderer} :
    registry.resolve kind = .error error ↔
      error = ⟨kind⟩ ∧ ∀ other ∈ kind.ancestry, registry.find? other = none := by
  rw [← List.findSome?_eq_none_iff, resolve, resolve?]
  cases kind.ancestry.findSome? registry.find? <;> simp [eq_comm]

theorem findSome?_apply_of_not_mem {call : Registration ρ} {ancestry : List StepKind}
    (h : call.kind ∉ ancestry) :
    ancestry.findSome? (registry.apply call).find? = ancestry.findSome? registry.find? := by
  induction ancestry with
  | nil => rfl
  | cons first ancestry ih =>
      obtain ⟨hfirst, hrest⟩ := not_or.1 (mt List.mem_cons.2 h)
      rw [List.findSome?_cons, List.findSome?_cons, find?_apply, if_neg (Ne.symm hfirst), ih hrest]

/-- A call has a say in the resolution of those kinds only that fall back to its own one. -/
theorem resolve_apply_of_not_isA {call : Registration ρ} (h : ¬ kind.isA call.kind = true) :
    (registry.apply call).resolve kind = registry.resolve kind := by
  rw [StepKind.isA_iff] at h
  rw [resolve, resolve, resolve?, resolve?, findSome?_apply_of_not_mem h]

/-- After any run of calls a kind is served by the last renderer of the nearest kind of its
ancestry for which one was registered, and where there is none the error names the kind itself.
So a call matters to the kinds that fall back to its own one only, all kinds are served once the
most general one is, and the registry has one renderer for each kind that was named.  Custom
kinds are told apart by name and fallback, and from the built-in ones. -/
theorem resolve_nearest_latest (calls : List (Registration ρ)) :
    let registry := after calls
    let kinds := calls.map Registration.kind
    (∀ kind renderer, registry.resolve kind = .ok renderer ↔
      ∃ nearer found farther, kind.ancestry = nearer ++ found :: farther ∧
        Registration.Latest calls found renderer ∧ ∀ other ∈ nearer, other ∉ kinds) ∧
    (∀ kind error, registry.resolve kind = .error error ↔
      error = ⟨kind⟩ ∧ ∀ other ∈ kind.ancestry, other ∉ kinds) ∧
    (∀ call kind, (registry.apply call).resolve kind ≠ registry.resolve kind →
      kind.isA call.kind = true) ∧
    (.state ∈ kinds → ∀ kind, ∃ renderer, registry.resolve kind = .ok renderer) ∧
    registry.size = kinds.dedup.length ∧
    (∀ name name' fallback fallback',
      StepKind.custom name fallback = .custom name' fallback' ↔
        name = name' ∧ fallback = fallback') ∧
    (∀ name fallback, StepKind.custom name fallback ∉ StepKind.builtIn) := by
  intro registry kinds
  have herror (kind : StepKind) (error : NoRenderer) : registry.resolve kind = .error error ↔
      error = ⟨kind⟩ ∧ ∀ other ∈ kind.ancestry, other ∉ kinds := by
    simp only [resolve_eq_error_iff, registry, find?_after_eq_none_iff, kinds]
  refine ⟨fun kind renderer => ?_, herror, fun call kind hchanged => ?_, fun hstate kind => ?_, ?_,
    fun _ _ _ _ => StepKind.custom_inj, StepKind.custom_not_mem_builtIn⟩
  · simp only [resolve_eq_ok_iff, resolve?, List.findSome?_eq_some_iff, registry,
      find?_after_eq_some_iff, find?_after_eq_none_iff, kinds]
  · by_contra hisA
    exact hchanged (resolve_apply_of_not_isA hisA)
  · cases hresolve : registry.resolve kind with
    | ok renderer => exact ⟨renderer, rfl⟩
    | error error =>
        exact absurd hstate (((herror kind error).1 hresolve).2 _ kind.state_mem_ancestry)
  · calc registry.size
      _ = registry.kinds.length := (List.length_map _).symm
      _ = kinds.dedup.length := (kinds_after calls).length_eq

/-- Amounts are shown as numbers once there is a renderer for numbers, by the last one, and all
kinds that have none of their own by the one for the most general kind. -/
theorem resolve_nearest_latest_amounts :
    let picker := StepKind.custom "picker" .option
    let calls : List (Registration String) :=
      [.register .numericEntry "digits", .adding .state "generic", .register .numericEntry "number"]
    let registry := after calls
    StepKind.state ∈ calls.map Registration.kind ∧
      Registration.Latest calls .numericEntry "number" ∧
      registry.resolve .currencyEntry = .ok "number" ∧
      (∃ renderer, registry.resolve picker = .ok renderer) ∧
      (registry.apply (.register picker "list")).resolve picker ≠ registry.resolve picker ∧
      picker.isA picker = true ∧ registry.size = 2 := by
  intro picker calls registry
  obtain ⟨hok, -, hcalls, hall, hsize, -, -⟩ := resolve_nearest_latest calls
  have hlatest : Registration.Latest calls .numericEntry "number" :=
    ⟨[.register .numericEntry "digits", .adding .state "generic"], _, [], rfl, rfl, rfl, by simp⟩
  have hchanged : (registry.apply (.register picker "list")).resolve picker ≠
      registry.resolve picker := by decide
  refine ⟨by decide, hlatest, (hok _ _).2 ⟨[.currencyEntry], .numericEntry, _, rfl, hlatest, ?_⟩,
    hall (by decide) picker, hchanged, hcalls _ _ hchanged, hsize.trans (by decide)⟩
  decide

end Registry

end TokenGrammar
