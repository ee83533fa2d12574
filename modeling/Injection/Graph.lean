import Injection.Key

/-!
The dependency graph of one container: its own bindings with what they need, and for every key in sight whether the
binding is the container's own or comes from a parent. Keys that several parents bring without one of them winning are
out of sight, but they are not missing either.
-/

namespace Injection

/-- Where the binding of a key in sight is. -/
inductive Origin
  | own
  | parent (index : Nat)
  deriving DecidableEq, Repr

/-- The number of the parent as text; the container itself has none. -/
def Origin.text : Origin → String
  | own => ""
  | parent index => toString index

/-- An own binding as the graph sees it. -/
structure Entry where
  key : Key
  dependencies : List Dependency
  isScoped : Bool
  deriving DecidableEq, Repr

/-- Own bindings, the origins of all keys in sight, and the keys that are in conflict. -/
structure Graph where
  entries : List Entry
  origins : List (Key × Origin)
  conflicted : List Key
  deriving DecidableEq, Repr

namespace Graph

def own? (g : Graph) (k : Key) : Option Entry := g.entries.find? (·.key = k)

/-- Where the binding of a key is, if the key is in sight. -/
def origin? (g : Graph) (k : Key) : Option Origin := g.origins.lookup k

def contains (g : Graph) (k : Key) : Bool := (g.origin? k).isSome

def visibleKeys (g : Graph) : List Key := g.origins.map Prod.fst

/-- All keys in sight with their origins, in the order of the keys' texts, and where these are equal in the order of the
origins' texts. -/
def sortedOrigins (g : Graph) : List (Key × Origin) := Text.sortOn (·.1.text) (Text.sortOn (·.2.text) g.origins)

def sortedKeys (g : Graph) : List Key := Key.sort (g.entries.map (·.key))

def dependenciesOf (g : Graph) (k : Key) : Option (List Dependency) := (g.own? k).map (·.dependencies)

def isScoped (g : Graph) (k : Key) : Bool := (g.own? k).any (·.isScoped)

/-- A dependency as text, with what it leaves open. -/
def dependencyText (d : Dependency) : String :=
  d.key.text ++ (if d.isLazy then " (lazy)" else "") ++ (if d.isOptional then " (optional)" else "")

/-- An own binding and what it needs, on one line. -/
def entryText (k : Key) (dependencies : List Dependency) : String :=
  match dependencies with
  | [] => k.text ++ "\n"
  | ds => k.text ++ " -> " ++ ", ".intercalate (ds.map dependencyText) ++ "\n"

def text (g : Graph) : String :=
  "".intercalate (g.sortedKeys.map fun k => entryText k ((g.dependenciesOf k).getD []))

end Graph

end Injection
