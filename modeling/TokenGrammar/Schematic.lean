import TokenGrammar.Template

/-!
# Schematics

A schematic is a template drawn as a graph, for display and review.  The id of a node is
the way to it: the root is `0`, and the ids of children add their index behind a point.
-/

namespace TokenGrammar

structure SchematicNode where
  id : String
  kind : String
  label : String
  vkey : Option String
  multivalue : Bool
  readOnly : Bool
  terminal : Bool
deriving DecidableEq, Repr

/-- How a step is reached from the one before it. -/
inductive EdgeKind where
  | next
  | bindOnly
deriving DecidableEq, Repr

/-- The way from one step to a following one, by their ids. -/
structure SchematicEdge where
  source : String
  target : String
  kind : EdgeKind
deriving DecidableEq, Repr

structure Schematic where
  name : String
  nodes : List SchematicNode
  edges : List SchematicEdge
deriving DecidableEq, Repr

namespace SchematicNode

def toJson (n : SchematicNode) : Json :=
  .obj ([("id", .str n.id), ("node_type", .str n.kind), ("label", .str n.label)] ++
    (match n.vkey with
      | some vkey => [("vkey", .str vkey)]
      | none => []) ++
    [("multivalue", .bool n.multivalue), ("read_only", .bool n.readOnly),
     ("terminal", .bool n.terminal)])

end SchematicNode

namespace EdgeKind

def name : EdgeKind → String
  | next => "next"
  | bindOnly => "bind-only"

def ofName? (name : String) : Option EdgeKind :=
  if name = "next" then some next
  else if name = "bind-only" then some bindOnly
  else none

/-- A kind is read from its name, which may also be the only field of an object that is
null. -/
def decode? : Json → Option EdgeKind
  | .str name => ofName? name
  | .obj [(name, .null)] => ofName? name
  | _ => none

end EdgeKind

namespace SchematicEdge

def toJson (e : SchematicEdge) : Json :=
  .obj [("from", .str e.source), ("to", .str e.target), ("kind", .str e.kind.name)]

end SchematicEdge

namespace Schematic

def node? (s : Schematic) (id : String) : Option SchematicNode :=
  s.nodes.find? fun n => n.id == id

def toJson (s : Schematic) : Json :=
  .obj [("name", .str s.name),
    ("nodes", .arr (s.nodes.map SchematicNode.toJson)),
    ("edges", .arr (s.edges.map SchematicEdge.toJson))]

/-- The members of a record by name, from an object or from an array that has all of them
in order.  A member that an object lacks is absent. -/
def members? (names : List String) : Json → Option (String → Option Json)
  | .obj fields => some (Fields.get? fields)
  | .arr items =>
    if items.length = names.length then some (Fields.get? (names.zip items)) else none
  | _ => none

def readString? : Option Json → Option String
  | some (.str s) => some s
  | _ => none

def readBool? : Option Json → Option Bool
  | some (.bool b) => some b
  | _ => none

def readOptionalString? : Option Json → Option (Option String)
  | none | some .null => some none
  | some (.str s) => some (some s)
  | _ => none

/-- Every item of an array, or nothing if one of them cannot be read. -/
def readAll? {α : Type} (read? : Json → Option α) : Option Json → Option (List α)
  | some (.arr items) => items.mapM read?
  | _ => none

def decodeNode? (j : Json) : Option SchematicNode := do
  let get ← members?
    ["id", "node_type", "label", "vkey", "multivalue", "read_only", "terminal"] j
  let id ← readString? (get "id")
  let kind ← readString? (get "node_type")
  let label ← readString? (get "label")
  let vkey ← readOptionalString? (get "vkey")
  let multivalue ← readBool? (get "multivalue")
  let readOnly ← readBool? (get "read_only")
  let terminal ← readBool? (get "terminal")
  pure ⟨id, kind, label, vkey, multivalue, readOnly, terminal⟩

def decodeEdge? (j : Json) : Option SchematicEdge := do
  let get ← members? ["from", "to", "kind"] j
  let source ← readString? (get "from")
  let target ← readString? (get "to")
  let kind ← (get "kind").bind EdgeKind.decode?
  pure ⟨source, target, kind⟩

def decode? (j : Json) : Option Schematic := do
  let get ← members? ["name", "nodes", "edges"] j
  let name ← readString? (get "name")
  let nodes ← readAll? decodeNode? (get "nodes")
  let edges ← readAll? decodeEdge? (get "edges")
  pure ⟨name, nodes, edges⟩

end Schematic

namespace Template

def childId (id : String) (index : Nat) : String :=
  String.ofList (id.toList ++ '.' :: Decimal.natText index)

def schematicNode (id : String) : Template → SchematicNode
  | node vkey step children =>
    { id, vkey
      kind := step.kind.name
      label := step.config.name
      multivalue := step.config.multivalue
      readOnly := step.config.readOnly
      terminal := children.isEmpty }

def schematicEdge (source target : String) (child : Template) : SchematicEdge :=
  ⟨source, target, if child.step.config.bindOnly then .bindOnly else .next⟩

mutual

/-- The nodes of a template whose root has the given id, each before its children. -/
def schematicNodes (id : String) : Template → List SchematicNode
  | node vkey step children =>
    schematicNode id (node vkey step children) :: schematicNodesAll id 0 children

/-- The nodes of the children from the given index on. -/
def schematicNodesAll (parent : String) (index : Nat) : List Template → List SchematicNode
  | [] => []
  | t :: ts =>
    t.schematicNodes (childId parent index) ++ schematicNodesAll parent (index + 1) ts

end

mutual

/-- The edges of a template whose root has the given id, each before those behind it. -/
def schematicEdges (id : String) : Template → List SchematicEdge
  | node _ _ children => schematicEdgesAll id 0 children

/-- The edges to the children from the given index on. -/
def schematicEdgesAll (parent : String) (index : Nat) : List Template → List SchematicEdge
  | [] => []
  | t :: ts =>
    schematicEdge parent (childId parent index) t ::
      (t.schematicEdges (childId parent index) ++ schematicEdgesAll parent (index + 1) ts)

end

def schematic (t : Template) (name : String) : Schematic :=
  ⟨name, t.schematicNodes "0", t.schematicEdges "0"⟩

end Template

end TokenGrammar
