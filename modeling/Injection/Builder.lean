import Injection.Attempt
import Injection.Graph.Link

/-!
Builders. A builder gathers bindings and parents and then links them into a container. A binding that is refused while
it is added does not stop the gathering; the first one that was refused stops the building.
-/

namespace Injection

/-- A container in the making. -/
structure Builder where
  label : String
  registry : Registry
  parents : List Container
  rejected : List RegistryError

namespace Builder

def new : Builder := ⟨"container", .empty, [], []⟩

def below (c : Container) : Builder := { new with parents := [c] }

def withLabel (b : Builder) (label : String) : Builder := { b with label }

def withParent (b : Builder) (c : Container) : Builder := { b with parents := b.parents ++ [c] }

/-- The builder with one more binding, or why the registry refuses it. -/
def tryAdd (b : Builder) (binding : Binding) : Except RegistryError Builder :=
  (b.registry.register binding).map fun registry => { b with registry }

/-- The builder with one more binding, or with one more refusal to account for. -/
def add (b : Builder) (binding : Binding) : Builder :=
  match b.tryAdd binding with
  | .ok b => b
  | .error e => { b with rejected := b.rejected ++ [e] }

end Builder

/-- What is told when a binding is registered; a refusal is not told. -/
def Registry.event? (r : Registry) (b : Binding) : Option Event :=
  if r.contains b.key then
    match b.policy with
    | .fail => none
    | .override => some ⟨.debug, "Overriding binding for " ++ b.key.text⟩
    | .ignore => some ⟨.warn, "Ignoring duplicate binding for " ++ b.key.text⟩
  else some ⟨.debug, "Registered binding for " ++ b.key.text⟩

namespace Attempt

variable {ε : Type}

def tell? : Option Event → Attempt ε Unit
  | some e => tell e.level e.message
  | none => pure ()

def tellAll : List Event → Attempt ε Unit
  | [] => pure ()
  | e :: es => do
    tell e.level e.message
    tellAll es

end Attempt

open Attempt

/-- Turns a draft into a binding; an instance in it takes the next serial number. -/
def BindingOf.make {ε : Type} (draft : Draft) : Attempt ε Binding := do
  if draft.isInstance then
    let serial ← nextSerial
    pure (draft.realize serial)
  else pure (draft.realize 0)

namespace Builder

def addDraft {ε : Type} (b : Builder) (draft : Draft) : Attempt ε Builder := do
  let binding ← draft.make
  tell? (b.registry.event? binding)
  pure (b.add binding)

def addDrafts {ε : Type} (b : Builder) : List Draft → Attempt ε Builder
  | [] => pure b
  | draft :: drafts => do
    let b ← b.addDraft draft
    b.addDrafts drafts

def linking (b : Builder) : String :=
  "Linking '" ++ b.label ++ "' with " ++ toString b.registry.size ++ " bindings and " ++ toString b.parents.length
    ++ " parents"

def linked (graph : Graph) : String :=
  "Linked graph with " ++ toString graph.entries.length ++ " own and " ++ toString graph.origins.length
    ++ " visible bindings"

/-- Links what was gathered into a container with a number of its own. -/
def build (b : Builder) : Attempt BuildError Container :=
  match b.rejected with
  | e :: _ => fail (.registry e)
  | [] => do
    tell .debug b.linking
    tellAll ((Graph.shadowed b.registry b.parents).map (⟨.debug, ·⟩))
    match Graph.link b.registry b.parents with
    | .error es => fail (.link es)
    | .ok graph => do
      tell .debug (linked graph)
      let id ← nextIdentity
      let c : Container := ⟨id, b.label, b.registry, b.parents, graph⟩
      note (.built c)
      pure c

end Builder

end Injection
