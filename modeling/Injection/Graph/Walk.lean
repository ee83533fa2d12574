import Injection.Graph
import Injection.Failure

/-!
Walks over the own bindings of a graph, along the dependencies that are needed at once. A walk lists each binding after
what it needs and reports what is missing and every dependency that leads back into the chain of bindings being visited.
A binding is visited once; lazy dependencies have to be there but are not followed.
-/

namespace Injection

/-- A walk under way: what was visited, the chain from the start to the binding being visited, the bindings that are
done, in order, and what was found wrong. -/
structure Walk where
  visited : List Key
  chain : List Key
  order : List Key
  errors : List LinkError
  deriving DecidableEq, Repr

namespace Walk

def start : Walk := ⟨[], [], [], []⟩

def report (w : Walk) (e : LinkError) : Walk := { w with errors := w.errors ++ [e] }

/-- The way from a key of the chain to its end, and back to the key. -/
def circle (w : Walk) (k : Key) : List Key := w.chain.dropWhile (· ≠ k) ++ [k]

/-- The order found, unless something was wrong. -/
def result (w : Walk) : Except (List LinkError) (List Key) :=
  match w.errors with
  | [] => .ok w.order
  | es => .error es

end Walk

namespace Graph

/-- Looks at one dependency of the binding under `k`, with `visit` to go on. -/
def follow (g : Graph) (visit : Walk → Key → Walk) (k : Key) (w : Walk) (d : Dependency) : Walk :=
  match g.origin? d.key with
  | none => if d.isOptional || d.key ∈ g.conflicted then w else w.report (.missing d.key (some k))
  | some _ => if d.isLazy then w else visit w d.key

/-- Visits a binding and what it needs, at most `depth` bindings deep. A key that is not the container's own was looked
at when its container was linked. -/
def visit (g : Graph) : Nat → Walk → Key → Walk
  | 0, w, _ => w
  | depth + 1, w, k =>
    match g.own? k with
    | none => w
    | some entry =>
      if k ∈ w.chain then w.report (.cycle (w.chain.getLast?.getD k) k (w.circle k))
      else if k ∈ w.visited then w
      else
        let entered : Walk := { w with visited := k :: w.visited, chain := w.chain ++ [k] }
        let left := entry.dependencies.foldl (g.follow (g.visit depth) k) entered
        { left with chain := w.chain, order := left.order ++ [k] }

/-- No chain is longer than the number of own bindings. -/
def depth (g : Graph) : Nat := g.entries.length + 1

def walk (g : Graph) : Walk := g.sortedKeys.foldl (g.visit g.depth) .start

def problems (g : Graph) : List LinkError := g.walk.errors

/-- All own bindings, each after what it needs. -/
def constructionOrder (g : Graph) : Except (List LinkError) (List Key) := g.walk.result

/-- The own bindings that a key needs, itself included, each after what it needs in turn. -/
def rootOrder (g : Graph) (root : Key) : Except (List LinkError) (List Key) :=
  if g.contains root then (g.visit g.depth .start root).result else .error [.missing root none]

end Graph

end Injection
