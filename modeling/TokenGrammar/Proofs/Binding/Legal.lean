import Mathlib.Data.List.Chain
import TokenGrammar.Machine.Binding

/-!
# Legal tokens

Which tokens belong to a template, said without a machine.  A token is legal if there is a
path from the root on which each step takes what the token has for it and its value leads
to the next step, until a step ends the token or has nothing to take, and if no value of
the token is left over.
-/

namespace TokenGrammar

namespace StepConfig

/-- The options on offer after the source was asked for a hint, if it has an answer. -/
def offered? (config : StepConfig) (hint : String) (context : Context) : Option (List Choice) :=
  match config.source.fetch hint context [] with
  | .ready options => some (OptionStore.truncate config.suggestionLimit options)
  | .failed _ | .waiting => none

/-- The options on offer on a step that was made ready for a value to restore: all of them,
or those found for the text of the value if it has no boxed form among all of them. -/
def hydrated? (config : StepConfig) (context : Context) : Option Json → Option (List Choice)
  | none => config.offered? "" context
  | some raw => do
    let options ← config.offered? "" context
    match config.boxer.box raw options with
    | .error _ => none
    | .ok (some _) => some options
    | .ok none =>
      if (hintText raw).isEmpty || !config.source.isPresent then some options
      else config.offered? (hintText raw) context

theorem offered?_of_absent {config : StepConfig} (h : config.source = .absent) (hint : String)
    (context : Context) : config.offered? hint context = some [] := by
  rw [offered?, h]
  cases hlimit : config.suggestionLimit <;> simp [Source.fetch, OptionStore.truncate]

theorem hydrated?_some {config : StepConfig} {context : Context} {raw : Json}
    {options : List Choice} (h : config.offered? "" context = some options) :
    config.hydrated? context (some raw) =
      match config.boxer.box raw options with
      | .error _ => none
      | .ok (some _) => some options
      | .ok none =>
        if (hintText raw).isEmpty || !config.source.isPresent then some options
        else config.offered? (hintText raw) context := by
  simp only [hydrated?, h]
  rfl

/-- Raw values that an archive takes one after the other. -/
inductive Collects (config : StepConfig) (options : List Choice) :
    List Choice → List Json → List Choice → Prop where
  | done {archive : List Choice} : Collects config options archive [] archive
  | next {archive result : List Choice} {item : Json} {items : List Json} {value : Choice}
      (single : item.isArray = false)
      (boxed : config.boxer.box item options = .ok (some value))
      (valid : config.validator (some value) archive = .ok true)
      (room : ∀ limit, config.multivalueLimit = some limit → archive.length < limit)
      (rest : Collects config options (archive ++ [value]) items result) :
      Collects config options archive (item :: items) result

/-- Values are added at the end of an archive only. -/
theorem Collects.exists_append {config : StepConfig} {options archive result : List Choice}
    {items : List Json} (h : config.Collects options archive items result) :
    ∃ added, result = archive ++ added := by
  induction h with
  | done => exact ⟨[], (List.append_nil _).symm⟩
  | next _ _ _ _ _ ih =>
      obtain ⟨added, rfl⟩ := ih
      exact ⟨_ :: added, List.append_assoc ..⟩

/-- What a step takes from a token and what it holds then, value and archive. -/
inductive Binds (config : StepConfig) (context : Context) :
    Option Json → Option Choice → List Choice → Prop where
  | nothing {options : List Choice} (hydrated : config.hydrated? context none = some options) :
      Binds config context none config.default? []
  | single {raw : Json} {options : List Choice} {value : Choice}
      (single : config.multivalue = false)
      (hydrated : config.hydrated? context (some raw) = some options)
      (boxed : config.boxer.box raw options = .ok (some value)) :
      Binds config context (some raw) (some value) []
  | several {raw : Json} {options archive : List Choice} (several : config.multivalue = true)
      (hydrated : config.hydrated? context none = some options)
      (collects : Collects config options [] (Machine.itemsOf raw) archive) :
      Binds config context (some raw) config.default? archive

end StepConfig

namespace Node

/-- What a token has for a step. -/
def stored? (node : Node) (token : Token) : Option Json :=
  node.vkey.bind fun vkey => Machine.entryFor? token vkey node.step.config.multivalue

/-- The step has a key, and the token has nothing under it. -/
def Missing (node : Node) (token : Token) : Prop :=
  node.vkey.isSome = true ∧ node.stored? token = none

end Node

/-- A step of a path with what it holds. -/
structure Visit where
  id : Nat
  value : Option Choice
  archive : List Choice

namespace Tree

def node (tree : Tree) (id : Nat) : Node := (tree.slot id).node

def nodeOf (tree : Tree) (visit : Visit) : Node := tree.node visit.id

/-- What the source of a step is told about the steps before it. -/
def contextOf (tree : Tree) (before : List Visit) : Context :=
  ⟨before.map fun visit =>
    ⟨(tree.nodeOf visit).vkey, (tree.nodeOf visit).step.config.name, visit.value⟩⟩

/-- A step takes what the token has for it. -/
def Binds (tree : Tree) (token : Token) (before : List Visit) (visit : Visit) : Prop :=
  (tree.nodeOf visit).step.config.Binds (tree.contextOf before)
    ((tree.nodeOf visit).stored? token) visit.value visit.archive

/-- The path goes on from a step to the first child whose guard accepts its value. -/
structure Proceeds (tree : Tree) (token : Token) (visit : Visit) (next : Nat) : Prop where
  present : ¬ (tree.nodeOf visit).Missing token
  valid : (tree.nodeOf visit).step.config.validator visit.value visit.archive = .ok true
  first : ((tree.nodeOf visit).children.find? fun child =>
    (tree.node child).step.config.guard visit.value) = some next

/-- The path ends at a step that none follows and at one that the token has nothing for. -/
def Ends (tree : Tree) (token : Token) (visit : Visit) : Prop :=
  (tree.nodeOf visit).children = [] ∨ (tree.nodeOf visit).Missing token

/-- The rest of a path, behind the visits before it. -/
def Walks (tree : Tree) (token : Token) : List Visit → List Visit → Prop
  | _, [] => False
  | before, [last] => tree.Binds token before last ∧ tree.Ends token last
  | before, visit :: next :: rest =>
    tree.Binds token before visit ∧ tree.Proceeds token visit next.id ∧
      tree.Walks token (before ++ [visit]) (next :: rest)

section Walks

variable {tree : Tree} {token : Token} {before visits : List Visit}

theorem walks_of_chain (hnonempty : visits ≠ [])
    (hbinds : ∀ visit ∈ visits, ∀ before, tree.Binds token before visit)
    (hchain : visits.IsChain fun visit next => tree.Proceeds token visit next.id)
    (hends : ∀ last, visits.getLast? = some last → tree.Ends token last) :
    tree.Walks token before visits := by
  induction visits generalizing before with
  | nil => exact absurd rfl hnonempty
  | cons visit rest ih =>
      have hvisit := hbinds visit List.mem_cons_self before
      cases rest with
      | nil => exact ⟨hvisit, hends visit rfl⟩
      | cons next rest =>
          obtain ⟨hlink, hchain⟩ := List.isChain_cons_cons.1 hchain
          refine ⟨hvisit, hlink, ih (by simp) ?_ hchain ?_⟩
          · exact fun other hother => hbinds other (List.mem_cons_of_mem _ hother)
          · intro last hlast
            exact hends last (by simpa using hlast)

theorem Walks.links (h : tree.Walks token before visits) :
    (∀ visit ∈ visits, ∃ before, tree.Binds token before visit) ∧
      visits.IsChain fun visit next => tree.Proceeds token visit next.id := by
  induction visits generalizing before with
  | nil => exact h.elim
  | cons visit rest ih =>
      cases rest with
      | nil =>
          refine ⟨?_, List.isChain_singleton _⟩
          intro other hother
          obtain rfl := List.mem_singleton.1 hother
          exact ⟨before, h.1⟩
      | cons next rest =>
          obtain ⟨hbinds, hlink, hrest⟩ := h
          obtain ⟨hall, hchain⟩ := ih hrest
          refine ⟨?_, List.isChain_cons_cons.2 ⟨hlink, hchain⟩⟩
          exact List.forall_mem_cons.2 ⟨⟨before, hbinds⟩, hall⟩

/-- A token from which all steps take the same, and of which they miss the same, is walked
along the same path. -/
theorem Walks.congr {other : Token} (h : tree.Walks token before visits)
    (hbinds : ∀ visit ∈ visits, ∀ before, tree.Binds token before visit →
      tree.Binds other before visit)
    (hmissing : ∀ visit ∈ visits,
      ((tree.nodeOf visit).Missing other ↔ (tree.nodeOf visit).Missing token)) :
    tree.Walks other before visits := by
  induction visits generalizing before with
  | nil => exact h
  | cons visit rest ih =>
      have hvisit := hbinds visit List.mem_cons_self before
      have hmiss := hmissing visit List.mem_cons_self
      cases rest with
      | nil => exact ⟨hvisit h.1, h.2.imp id hmiss.2⟩
      | cons next rest =>
          obtain ⟨hbound, ⟨hpresent, hvalid, hfirst⟩, hrest⟩ := h
          refine ⟨hvisit hbound, ⟨fun hother => hpresent (hmiss.1 hother), hvalid, hfirst⟩,
            ih hrest ?_ ?_⟩
          · exact fun later hlater => hbinds later (List.mem_cons_of_mem _ hlater)
          · exact fun later hlater => hmissing later (List.mem_cons_of_mem _ hlater)

end Walks

/-- The path of a legal token. -/
structure Legal (tree : Tree) (token : Token) (path : List Visit) : Prop where
  root : path.head?.map Visit.id = some root
  walks : tree.Walks token [] path
  /-- Every value is taken by a step on the path. -/
  complete : ∀ vkey raw, (vkey, raw) ∈ token → raw.isNull = false →
    ∃ visit ∈ path, (tree.nodeOf visit).vkey = some vkey

end Tree

end TokenGrammar
