import Injection.Store
import Injection.Text.Layout

/-!
Containers and lazy handles as text. Both show how far they have come: a container which of its scoped values are
there, a handle what it found.
-/

namespace Injection

/-- A container's own text: its label, and for every key in sight how its value stands. -/
def Container.fields (c : Container) (s : Store) : List Text.Field :=
  ("label", Text.quoted c.label) :: (Key.sort c.graph.visibleKeys).map fun k =>
    (k.text, Text.quoted <|
      match c.graph.origin? k with
      | some (.parent _) => "inherited"
      | _ =>
        if s.slots.isReady ⟨c.id, k⟩ then "ready"
        else if c.graph.isScoped k then "scoped"
        else "transient")

def Container.text (c : Container) (s : Store) : String := Text.record "DiContainer" (c.fields s)

def Container.lines (c : Container) (s : Store) : String := Text.recordLines "DiContainer" (c.fields s)

/-- A lazy handle as text: what it found, or that it found nothing yet. -/
def Lazy.text (found : Option Value) : String :=
  "Lazy(" ++ (match found with | some v => v.text | none => Text.quoted "<unresolved>") ++ ")"

end Injection
