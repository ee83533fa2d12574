import Injection.Text.Order

/-!
Events, and the order they are reported in. Linking looks at hidden bindings in no certain order, so that neighbouring
events about them are put in the order of their texts; all others stay where they are.
-/

namespace Injection

/-- How much an event matters. -/
inductive Level
  | trace
  | debug
  | warn
  | error
  deriving DecidableEq, Repr

namespace Level

def text : Level → String
  | trace => "TRACE"
  | debug => "DEBUG"
  | warn => "WARN"
  | error => "ERROR"

end Level

/-- Something worth telling. -/
structure Event where
  level : Level
  message : String
  deriving DecidableEq, Repr

namespace Event

def text (e : Event) : String := e.level.text ++ " " ++ e.message

/-- How a message ends that tells of a hidden binding. -/
def hidden : String := " is shadowed"

/-- Whether an event reads like one that tells of a hidden binding. -/
def isUnordered (e : Event) : Bool := hidden.toList.isSuffixOf e.message.toList

/-- Events in the order they are reported in. -/
def arrange : List Event → List Event
  | [] => []
  | e :: es =>
    if e.isUnordered then Text.insertBy (fun f e => f.isUnordered && f.text < e.text) e (arrange es)
    else e :: arrange es

theorem arrange_perm (es : List Event) : (arrange es).Perm es := by
  induction es with
  | nil => exact .refl _
  | cons e es ih =>
    rw [arrange]
    split
    · exact (Text.insertBy_perm _ e _).trans (ih.cons e)
    · exact ih.cons e

end Event

end Injection
