import TokenGrammar.Step

/-!
# Templates

A template is the grammar of a token: a tree of steps, each with the key under which its
value goes into the token.  A step without a key shows but does not enter the token.
Chains make linear runs of steps easy to write.
-/

namespace TokenGrammar

/-- A step of the grammar with the steps that may follow it, in the order of trial. -/
inductive Template where
  | node (vkey : Option String) (step : Step) (children : List Template)

namespace Template

instance : Inhabited Template := ⟨.node none default []⟩

def vkey : Template → Option String
  | node vkey _ _ => vkey

def step : Template → Step
  | node _ step _ => step

def children : Template → List Template
  | node _ _ children => children

mutual

def size : Template → Nat
  | node _ _ children => 1 + sizeAll children

def sizeAll : List Template → Nat
  | [] => 0
  | t :: ts => t.size + sizeAll ts

end

end Template

/-- A run of steps, each followed by the next, whose end is still open. -/
structure Chain where
  first : Option String × Step
  links : List (Option String × Step)

namespace Chain

def start (vkey : Option String) (step : Step) : Chain := ⟨(vkey, step), []⟩

def next (chain : Chain) (vkey : Option String) (step : Step) : Chain :=
  { chain with links := chain.links ++ [(vkey, step)] }

/-- The steps of a run above the given templates. -/
def above (links : List (Option String × Step)) (children : List Template) : List Template :=
  links.foldr (fun link children => [.node link.1 link.2 children]) children

/-- The template that goes on behind the end of the chain in one of several ways. -/
def branch (chain : Chain) (children : List Template) : Template :=
  .node chain.first.1 chain.first.2 (above chain.links children)

def build (chain : Chain) : Template := chain.branch []

end Chain

end TokenGrammar
