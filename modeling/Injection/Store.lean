import Injection.Container
import Injection.Event
import Injection.Slots

/-!
What is remembered between and during requests: the numbers given out, the places of scoped values, how often each
provider ran, what each thread has under construction, what lazy handles found, who holds which container, and what is
to be told about it all. Containers live as long as something holds them or a container below them. A history of what
was built, constructed and handed out is never forgotten; whole runs are judged by it.
-/

namespace Injection

/-- The place that a container keeps for an own binding. -/
def Container.place (o : Container) (b : Binding) : Address := ⟨o.id, b.key⟩

/-- The start of a provider run. -/
structure Call where
  key : Key
  tag : String
  deriving DecidableEq, Repr

namespace Call

def text (c : Call) : String := if c.tag.isEmpty then c.key.text else c.key.text ++ ":" ++ c.tag

end Call

/-- Something on the way to a value that is remembered for good. -/
inductive Happening
  | built (container : Container)
  | entered (place : Address)
  /-- A binding was asked for while it was under construction. -/
  | refused (place : Address)
  | began (place : Address)
  | succeeded (place : Address) (value : Value)
  /-- A request for a key at a container was answered. -/
  | answered (container : Container) (key : Key) (value : Value)
  /-- A lazy handle on a key of a container gave a value. -/
  | used (container : Container) (key : Key) (value : Value)

/-- What a lazy handle looks up and where, and what it found. -/
structure Cell where
  container : Container
  key : Key
  found : Option Value

/-- Everything that requests read and change. -/
structure Store where
  /-- How many values have been made. -/
  serial : Nat
  /-- How many containers, lazy handles and sets of configs there have been. -/
  identities : Nat
  slots : Slots
  runs : Address → Nat
  /-- What each thread is constructing, outermost first. -/
  building : Thread → List Address
  cells : Nat → Option Cell
  held : List Container
  /-- How many have arrived at each gate. -/
  gates : String → Nat
  calls : List Call
  events : List Event
  /-- All happenings, the last one first. -/
  history : List Happening

namespace Store

def empty : Store where
  serial := 0
  identities := 0
  slots := .empty
  runs := fun _ => 0
  building := fun _ => []
  cells := fun _ => none
  held := []
  gates := fun _ => 0
  calls := []
  events := []
  history := []

def note (s : Store) (h : Happening) : Store := { s with history := h :: s.history }

def tell (s : Store) (e : Event) : Store := { s with events := e :: s.events }

/-- A thread goes into the construction of a binding, unless it is in it already. -/
def enter (s : Store) (me : Thread) (place : Address) : Store × Bool :=
  if place ∈ s.building me then (s.note (.refused place), false)
  else ({ s.note (.entered place) with building := setAt s.building me (s.building me ++ [place]) }, true)

/-- The last occurrence of an element taken out of a list. -/
def eraseLast (places : List Address) (place : Address) : List Address := (places.reverse.erase place).reverse

def leave (s : Store) (me : Thread) (place : Address) : Store :=
  { s with building := setAt s.building me (eraseLast (s.building me) place) }

def countRun (s : Store) (place : Address) (tag : String) : Store × Nat :=
  ({ s.note (.began place) with runs := setAt s.runs place (s.runs place + 1), calls := ⟨place.key, tag⟩ :: s.calls },
    s.runs place + 1)

def nextSerial (s : Store) : Store × Nat := ({ s with serial := s.serial + 1 }, s.serial + 1)

def nextIdentity (s : Store) : Store × Nat := ({ s with identities := s.identities + 1 }, s.identities)

def postpone (s : Store) (c : Container) (k : Key) : Store × Lazy :=
  let (s, id) := s.nextIdentity
  ({ s with cells := setAt s.cells id (some ⟨c, k, none⟩) }, ⟨id, k⟩)

def found? (s : Store) (l : Lazy) : Option Value := (s.cells l.id).bind (·.found)

/-- Whether a container is held, by itself or through one below it. -/
def isAlive (s : Store) (id : Nat) : Bool := (Container.lineage s.held).any (·.id == id)

def hold (s : Store) (c : Container) : Store := { s with held := c :: s.held }

def letGo (s : Store) (c : Container) : Store := { s with held := s.held.eraseP (·.id == c.id) }

/-- A lazy handle gives what it found before, if it found anything. -/
def remember (s : Store) (l : Lazy) : Store × Option Value :=
  match s.cells l.id with
  | none => (s, none)
  | some cell =>
    match cell.found with
    | some v => (s.note (.used cell.container cell.key v), some v)
    | none => (s, none)

/-- Takes hold of the container of a lazy handle, if it is still alive. -/
def reclaim (s : Store) (l : Lazy) : Store × Option Cell :=
  match s.cells l.id with
  | none => (s, none)
  | some cell => if s.isAlive cell.container.id then (s.hold cell.container, some cell) else (s, none)

/-- Keeps what a lazy handle found, and gives it; the first find stays. -/
def keep (s : Store) (l : Lazy) (v : Value) : Store × Value :=
  match s.cells l.id with
  | none => (s, v)
  | some cell =>
    let kept := cell.found.getD v
    ({ s.note (.used cell.container cell.key kept) with
        cells := setAt s.cells l.id (some { cell with found := some kept }) }, kept)

/-- Whether the use of a lazy handle leads nowhere but to a container and those above it: the handle has found something,
or its container is not alive any more, or is one of these. -/
def leadsUp (s : Store) (l : Lazy) (c : Container) : Bool :=
  (s.cells l.id).all fun cell =>
    cell.found.isSome || !s.isAlive cell.container.id || (Container.lineage [c]).any (·.id == cell.container.id)

def arrive (s : Store) (gate : String) : Store := { s with gates := setAt s.gates gate (s.gates gate + 1) }

def constructedCount (s : Store) (c : Container) : Nat := c.keptKeys.countP fun k => s.slots.isReady ⟨c.id, k⟩

end Store

end Injection
