import TokenGrammar.Numeric.Binary64

/-!
# JSON values

Integers and binary64 numbers are different values, integers being those of 64 bits,
signed or unsigned.  The fields of an object keep the order in which they first
arrived; equality ignores that order and the sign of zero, by comparing canonical
forms.
-/

namespace TokenGrammar

/-- An integer of 64 bits, signed or unsigned. -/
structure WideInt where
  value : Int
  lower : -Int.pow 2 63 ≤ value
  upper : value < Int.pow 2 64
deriving DecidableEq, Repr

namespace WideInt

def ofInt? (i : Int) : Option WideInt :=
  if h : -Int.pow 2 63 ≤ i ∧ i < Int.pow 2 64 then some ⟨i, h.1, h.2⟩ else none

/-- Whether the integer also fits 64 signed bits. -/
def fitsSigned (i : WideInt) : Bool := decide (i.value < Int.pow 2 63)

end WideInt

inductive Number where
  | int (i : WideInt)
  | float (x : Finite64)
deriving DecidableEq, Repr

namespace Number

/-- The number of an integer: exact where 64 bits hold it. -/
def ofInt (i : Int) : Number :=
  match WideInt.ofInt? i with
  | some w => .int w
  | none => .float ((Binary64.ofInt i).finite?.getD .zero)

def int64? : Number → Option Int
  | .int i => if i.fitsSigned then some i.value else none
  | .float _ => none

def toFinite64 : Number → Finite64
  | .int i => (Binary64.ofInt i.value).finite?.getD .zero
  | .float x => x

def canonical : Number → Number
  | .int i => .int i
  | .float x => .float x.canonical

end Number

/-- A JSON value.  The keys of an object are expected to be distinct. -/
inductive Json where
  | null
  | bool (b : Bool)
  | num (n : Number)
  | str (s : String)
  | arr (items : List Json)
  | obj (fields : List (String × Json))

namespace Json

instance : Inhabited Json := ⟨.null⟩

def ofInt (i : Int) : Json := .num (.ofInt i)

def ofNat (n : Nat) : Json := ofInt n

def isNull : Json → Bool
  | .null => true
  | _ => false

def isArray : Json → Bool
  | .arr _ => true
  | _ => false

mutual

/-- Structural equality, field order included. -/
def identical : Json → Json → Bool
  | .null, .null => true
  | .bool a, .bool b => a == b
  | .num a, .num b => decide (a = b)
  | .str a, .str b => a == b
  | .arr as, .arr bs => identicalItems as bs
  | .obj as, .obj bs => identicalFields as bs
  | _, _ => false

def identicalItems : List Json → List Json → Bool
  | [], [] => true
  | a :: as, b :: bs => identical a b && identicalItems as bs
  | _, _ => false

def identicalFields : List (String × Json) → List (String × Json) → Bool
  | [], [] => true
  | (k, a) :: as, (l, b) :: bs => k == l && identical a b && identicalFields as bs
  | _, _ => false

end

/-- Puts a field in front of the first field with a larger key. -/
def insertField (key : String) (value : Json) : List (String × Json) → List (String × Json)
  | [] => [(key, value)]
  | (k, v) :: rest =>
    if key < k then (key, value) :: (k, v) :: rest else (k, v) :: insertField key value rest

mutual

/-- The value with the fields of every object sorted by key and zeros without a sign. -/
def canonical : Json → Json
  | .null => .null
  | .bool b => .bool b
  | .num n => .num n.canonical
  | .str s => .str s
  | .arr items => .arr (canonicalItems items)
  | .obj fields => .obj (canonicalFields fields)

def canonicalItems : List Json → List Json
  | [] => []
  | item :: items => canonical item :: canonicalItems items

def canonicalFields : List (String × Json) → List (String × Json)
  | [] => []
  | (key, value) :: fields => insertField key (canonical value) (canonicalFields fields)

end

/-- Equality of values, whatever the order of their fields. -/
instance : BEq Json := ⟨fun a b => identical a.canonical b.canonical⟩

end Json

/-- The fields of an object in the order in which their keys first arrived. -/
abbrev Fields := List (String × Json)

namespace Fields

def get? (fields : Fields) (key : String) : Option Json :=
  (fields.find? fun f => f.1 == key).map (·.2)

/-- The fields with one value set: a key that is present keeps its place, a new one goes
to the end. -/
def set (fields : Fields) (key : String) (value : Json) : Fields :=
  match fields with
  | [] => [(key, value)]
  | (k, v) :: rest => if k == key then (k, value) :: rest else (k, v) :: set rest key value

def keys (fields : Fields) : List String := fields.map (·.1)

end Fields

end TokenGrammar
