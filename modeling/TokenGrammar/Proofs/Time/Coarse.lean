import TokenGrammar.Time.Pattern

/-!
# Patterns down to the minute

A pattern that reads no seconds, no fraction and no count of seconds gives instants at the
start of a minute: their parts never have a second.
-/

namespace TokenGrammar.Time

namespace Parts

/-- Nothing finer than a minute is known, nor a count of seconds. -/
structure IsCoarse (p : Parts) : Prop where
  second : p.second = none
  nanos : p.nanos = none
  unixSeconds : p.unixSeconds = none

theorem isCoarse_empty : IsCoarse {} := ⟨rfl, rfl, rfl⟩

/-- The parts agree in whatever is finer than a minute and in the count of seconds. -/
structure SameFine (p q : Parts) : Prop where
  second : q.second = p.second
  nanos : q.nanos = p.nanos
  unixSeconds : q.unixSeconds = p.unixSeconds

variable {p q : Parts}

theorem SameFine.isCoarse (h : SameFine p q) (hp : p.IsCoarse) : q.IsCoarse :=
  ⟨h.second.trans hp.second, h.nanos.trans hp.nanos, h.unixSeconds.trans hp.unixSeconds⟩

theorem SameFine.refl (p : Parts) : SameFine p p := ⟨rfl, rfl, rfl⟩

theorem SameFine.trans {r : Parts} (h : SameFine p q) (h' : SameFine q r) : SameFine p r :=
  ⟨h'.second.trans h.second, h'.nanos.trans h.nanos, h'.unixSeconds.trans h.unixSeconds⟩

/-- Setting a part that is no second, fraction or count of seconds. -/
theorem sameFine_map {α : Type} {part? : Option α} {set : α → Parts}
    (h : part?.map set = some q) (hset : ∀ value, SameFine p (set value)) : SameFine p q := by
  obtain ⟨value, -, rfl⟩ := Option.map_eq_some_iff.1 h
  exact hset value

theorem sameFine_guarded {condition : Prop} [Decidable condition] {next : Option Parts}
    (h : (if condition then next else none) = some q) (hnext : next = some q → SameFine p q) :
    SameFine p q := by
  split at h
  · exact hnext h
  · cases h

end Parts

namespace NumericPart

/-- Whether a number is no second, fraction or count of seconds. -/
def isCoarse (part : NumericPart) : Bool :=
  part != second && part != nanosecond && part != unixSeconds

open Parts in
theorem sameFine_set {part : NumericPart} (hpart : part.isCoarse = true) {negative : Bool}
    {n : Nat} {p q : Parts} (h : part.set negative n p = some q) : SameFine p q := by
  cases part
  case second | nanosecond | unixSeconds => cases hpart
  case hour =>
    refine sameFine_guarded h fun h => ?_
    obtain ⟨middle, hmiddle, h⟩ := Option.bind_eq_some_iff.1 h
    exact (sameFine_map hmiddle fun _ => ⟨rfl, rfl, rfl⟩).trans
      (sameFine_map h fun _ => ⟨rfl, rfl, rfl⟩)
  case year | weekYear | century => exact sameFine_map h fun _ => ⟨rfl, rfl, rfl⟩
  all_goals exact sameFine_guarded h fun h => sameFine_map h fun _ => ⟨rfl, rfl, rfl⟩

end NumericPart

namespace PatternItem

open Parts

/-- Whether an item reads no second, no fraction and no count of seconds. -/
def isCoarse : PatternItem → Bool
  | number part _ => part.isCoarse
  | fraction | fixedFraction _ | fractionDigits _ | timestamp => false
  | _ => true

variable {p q : Parts} {cs rest : List Char}

theorem sameFine_map_with {part? : Option Parts} (h : part?.map (·, rest) = some (q, cs))
    (hpart : part? = some q → SameFine p q) : SameFine p q := by
  obtain ⟨part, hpart', heq⟩ := Option.map_eq_some_iff.1 h
  obtain rfl : part = q := congrArg Prod.fst heq
  exact hpart hpart'

theorem sameFine_takeOffset {found? : Option (Int × List Char)}
    (h : takeOffset p found? = some (q, rest)) : SameFine p q := by
  obtain ⟨⟨seconds, more⟩, -, h⟩ := Option.bind_eq_some_iff.1 h
  exact sameFine_map_with h fun h => sameFine_map h fun _ => ⟨rfl, rfl, rfl⟩

theorem sameFine_read {item : PatternItem} (hitem : item.isCoarse = true)
    (h : item.read p cs = some (q, rest)) : SameFine p q := by
  have hafternoon {afternoon : Bool} (h : p.setAfternoon afternoon = some q) : SameFine p q :=
    sameFine_map h fun _ => ⟨rfl, rfl, rfl⟩
  cases item with
  | plain c =>
      obtain rfl : p = q := by
        simp only [read] at h
        split at h
        · exact congrArg Prod.fst (Option.some.inj h)
        · obtain ⟨_, -, heq⟩ := Option.map_eq_some_iff.1 h
          exact congrArg Prod.fst heq
      exact SameFine.refl p
  | number part padding =>
      obtain ⟨⟨negative, n, more⟩, -, h⟩ := Option.bind_eq_some_iff.1 h
      obtain ⟨_, hset, h⟩ := Option.bind_eq_some_iff.1 h
      obtain rfl := congrArg Prod.fst (Option.some.inj h)
      exact NumericPart.sameFine_set hitem hset
  | monthName full =>
      obtain ⟨⟨index, more⟩, -, h⟩ := Option.bind_eq_some_iff.1 h
      exact sameFine_map_with h fun h =>
        sameFine_guarded h fun h => sameFine_map h fun _ => ⟨rfl, rfl, rfl⟩
  | weekdayName full =>
      obtain ⟨⟨index, more⟩, -, h⟩ := Option.bind_eq_some_iff.1 h
      exact sameFine_map_with h fun h => sameFine_map h fun _ => ⟨rfl, rfl, rfl⟩
  | halfDay small =>
      change readHalfDay p cs = _ at h
      unfold readHalfDay at h
      split at h
      · exact sameFine_map_with h hafternoon
      · exact sameFine_map_with h hafternoon
      · cases h
  | zoneName =>
      obtain rfl := congrArg Prod.fst (Option.some.inj h)
      exact SameFine.refl p
  | offset style => exact sameFine_takeOffset h
  | anyOffset => exact sameFine_takeOffset h
  | fraction | fixedFraction digits | fractionDigits digits | timestamp => cases hitem

end PatternItem

namespace Parts

variable {p : Parts}

theorem IsCoarse.clock_nanos (hp : p.IsCoarse) {clock : Clock} (h : p.clock = .ok clock) :
    clock.nanos = 0 := by
  unfold Parts.clock at h
  rw [hp.second, hp.nanos] at h
  split at h
  · obtain rfl := Except.ok.inj h
    rfl
  · cases h

theorem IsCoarse.instant?_nanos (hp : p.IsCoarse) {i : Instant} (h : p.instant? = some i) :
    i.nanos = 0 := by
  unfold Parts.instant? at h
  rw [hp.unixSeconds] at h
  cases hdate : p.date with
  | error defect =>
      cases hclock : p.clock with
      | error defect' => cases defect <;> cases defect' <;> simp [hdate, hclock] at h
      | ok clock => cases defect <;> simp [hdate, hclock] at h
  | ok date =>
      cases hclock : p.clock with
      | error defect => cases defect <;> simp [hdate, hclock] at h
      | ok clock =>
          obtain rfl : Instant.ofDateClock date clock = i := by simpa [hdate, hclock] using h
          exact hp.clock_nanos hclock

theorem startOfDay?_nanos {i : Instant} (h : p.startOfDay? = some i) : i.nanos = 0 := by
  unfold startOfDay? at h
  split at h
  · obtain rfl := Option.some.inj h
    rfl
  · cases h

end Parts

namespace Pattern

variable {pattern : Pattern} {cs : List Char} {p q : Parts}

theorem sameFine_parts? (hpattern : ∀ item ∈ pattern, item.isCoarse = true)
    (h : parts?.go pattern p cs = some q) : Parts.SameFine p q := by
  induction pattern generalizing p cs with
  | nil =>
      cases cs with
      | nil =>
          obtain rfl := Option.some.inj h
          exact Parts.SameFine.refl p
      | cons c cs => cases h
  | cons item items ih =>
      rw [parts?.go] at h
      cases hread : item.read p cs with
      | none => simp [hread] at h
      | some found =>
          obtain ⟨middle, rest⟩ := found
          simp only [hread] at h
          have hfirst := PatternItem.sameFine_read (hpattern item (List.mem_cons_self ..)) hread
          exact hfirst.trans (ih (fun other hother =>
            hpattern other (List.mem_cons_of_mem _ hother)) h)

/-- What is read under a coarse pattern has no fraction. -/
theorem instant?_nanos (hpattern : ∀ item ∈ pattern, item.isCoarse = true) {i : Instant}
    (h : pattern.instant? cs = some i) : i.nanos = 0 := by
  obtain ⟨p, hparts, h⟩ := Option.bind_eq_some_iff.1 h
  have hp : p.IsCoarse := (sameFine_parts? hpattern hparts).isCoarse Parts.isCoarse_empty
  rcases Option.or_eq_some_iff.1 h with hinstant | ⟨-, hstart⟩
  · exact hp.instant?_nanos hinstant
  · exact Parts.startOfDay?_nanos hstart

end Pattern

end TokenGrammar.Time
