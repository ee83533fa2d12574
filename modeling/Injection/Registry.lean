import Injection.Binding

/-!
The registry of a container: at most one binding for each key. A second binding for a key is refused, takes the place of
the first or is left out, as its own policy says.
-/

namespace Injection

/-- Bindings in the order their keys were first taken. -/
structure Registry where
  bindings : List Binding

namespace Registry

def empty : Registry := ⟨[]⟩

def size (r : Registry) : Nat := r.bindings.length

def keys (r : Registry) : List Key := r.bindings.map (·.key)

def lookup (r : Registry) (k : Key) : Option Binding := r.bindings.find? (·.key = k)

def contains (r : Registry) (k : Key) : Bool := (r.lookup k).isSome

/-- Puts a binding in the place of the one with its key. -/
def replace (r : Registry) (b : Binding) : Registry := ⟨r.bindings.map fun c => if c.key = b.key then b else c⟩

/-- Takes a binding in, as its policy says when its key is taken. -/
def register (r : Registry) (b : Binding) : Except RegistryError Registry :=
  if r.contains b.key then
    match b.policy with
    | .fail => .error (.duplicate b.key)
    | .override => .ok (r.replace b)
    | .ignore => .ok r
  else .ok ⟨r.bindings ++ [b]⟩

/-- Takes bindings in one after the other, and says which were refused. -/
def registerAll (r : Registry) : List Binding → Registry × List RegistryError
  | [] => (r, [])
  | b :: bs =>
    match r.register b with
    | .ok r => r.registerAll bs
    | .error e =>
      let (r, es) := r.registerAll bs
      (r, e :: es)

theorem key_of_lookup {r : Registry} {k : Key} {b : Binding} (h : r.lookup k = some b) : b.key = k := by
  simpa using List.find?_some h

end Registry

end Injection
