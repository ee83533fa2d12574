import Injection.Container
import Injection.Distinct
import Injection.Event
import Injection.Graph.Walk

/-!
Linking a registry below its parents. An own binding hides what the parents bring under its key. Of the other keys, each
has the containers that own it, counted once however many parents lead there; one of them wins if it is alone, or alone
in overriding, or alone in not giving way. A key that no container wins is in conflict.
-/

namespace Injection

/-- A container that brings a binding for a key: the first parent that leads there, the owner, and its policy. -/
structure Candidate where
  parent : Nat
  owner : Container
  policy : Policy

namespace Graph

/-- The owners of a key among parents, numbered from `index` on, after those already found. -/
def candidatesFrom (k : Key) : Nat → List Container → List Candidate → List Candidate
  | _, [], found => found
  | index, p :: ps, found =>
    candidatesFrom k (index + 1) ps <|
      match p.owner? k with
      | none => found
      | some (owner, b) =>
        if found.any (·.owner.id == owner.id) then found else found ++ [⟨index, owner, b.policy⟩]

def candidates (parents : List Container) (k : Key) : List Candidate := candidatesFrom k 0 parents []

/-- The element of a list that has one. -/
def only {α : Type} : List α → Option α
  | [a] => some a
  | _ => none

/-- The candidate that wins: the only one, the only one that overrides, or the only one that does not give way. -/
def winner (cs : List Candidate) : Option Candidate :=
  only cs <|> only (cs.filter (·.policy = .override)) <|> only (cs.filter (·.policy ≠ .ignore))

/-- The keys that parents bring and the registry does not bind, each once. -/
def inheritedKeys (registry : Registry) (parents : List Container) : List Key :=
  distinct ((parents.flatMap (·.graph.visibleKeys)).filter fun k => !registry.contains k)

def inherited (registry : Registry) (parents : List Container) : List (Key × List Candidate) :=
  (inheritedKeys registry parents).map fun k => (k, candidates parents k)

/-- Origins of the keys that some parent's binding wins. -/
def inheritedOrigins (brought : List (Key × List Candidate)) : List (Key × Origin) :=
  brought.filterMap fun (k, cs) => (winner cs).map fun c => (k, .parent c.parent)

/-- The keys that no binding wins, with their owners. -/
def contested (brought : List (Key × List Candidate)) : List (Key × List Candidate) :=
  brought.filter fun (_, cs) => (winner cs).isNone

/-- The graph of a registry below parents that bring keys, right or wrong. -/
def assemble (registry : Registry) (brought : List (Key × List Candidate)) : Graph where
  entries := registry.bindings.map fun b => ⟨b.key, b.dependencies, b.isScoped⟩
  origins := registry.bindings.map (fun b => (b.key, .own)) ++ inheritedOrigins brought
  conflicted := (contested brought).map Prod.fst

def conflicts (brought : List (Key × List Candidate)) : List LinkError :=
  Text.sortOn LinkError.message <| (contested brought).map fun (k, cs) => .conflict k (cs.map (·.owner.label))

/-- Everything that is wrong with a graph below parents that bring keys: conflicts first. -/
def faults (g : Graph) (brought : List (Key × List Candidate)) : List LinkError := conflicts brought ++ g.problems

/-- Links a registry below its parents, or says everything that is wrong. -/
def link (registry : Registry) (parents : List Container) : Except (List LinkError) Graph :=
  let brought := inherited registry parents
  let g := assemble registry brought
  match g.faults brought with
  | [] => .ok g
  | es => .error es

/-- What is said of each binding of a parent that an own binding hides. -/
def shadowed (registry : Registry) (parents : List Container) : List String :=
  parents.flatMap fun p =>
    (p.graph.visibleKeys.filter registry.contains).map fun k => k.text ++ " from '" ++ p.label ++ "'" ++ Event.hidden

end Graph

end Injection
