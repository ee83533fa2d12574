import Injection.Value

/-!
The places where containers keep the values of scoped bindings, and the threads that wait for them. A place is vacant,
being computed by one thread, or ready for good. A thread that finds a place being computed waits for it, unless the
owner of the place waits, directly or through others, for that very thread: then waiting could never end, and the
thread is refused.
-/

namespace Injection

/-- Changes a function at one argument. -/
def setAt {α β : Type} [DecidableEq α] (f : α → β) (a : α) (b : β) : α → β :=
  fun x => if x = a then b else f x

@[simp] theorem setAt_self {α β : Type} [DecidableEq α] (f : α → β) (a : α) (b : β) : setAt f a b a = b := by
  simp [setAt]

theorem setAt_of_ne {α β : Type} [DecidableEq α] {a x : α} (f : α → β) (b : β) (h : x ≠ a) :
    setAt f a b x = f x := by
  simp [setAt, h]

abbrev Thread := Nat

/-- The place of a binding: the number of its container and its key. -/
structure Address where
  container : Nat
  key : Key
  deriving DecidableEq, Repr

inductive Slot
  | vacant
  | computing (owner : Thread)
  | ready (value : Value)
  deriving DecidableEq, Repr

/-- A thread waits for a place that another one is computing. -/
structure WaitEdge where
  waiter : Thread
  place : Address
  owner : Thread
  deriving DecidableEq, Repr

namespace WaitEdge

/-- Whether `waiter` is met within so many threads, going from `current` to the thread it waits for. -/
def leadsTo (edges : List WaitEdge) (waiter : Thread) : Nat → Thread → Bool
  | 0, _ => false
  | steps + 1, current =>
    if current = waiter then true
    else
      match edges.find? (·.waiter = current) with
      | some e => leadsTo edges waiter steps e.owner
      | none => false

/-- Lets a thread wait for a place and its owner, or refuses if the owner waits for that thread. A thread waits for one
place at a time, so a way along the edges passes each of them once at most. -/
def startWaiting (edges : List WaitEdge) (waiter : Thread) (place : Address) (owner : Thread) :
    Option (List WaitEdge) :=
  if leadsTo edges waiter (edges.length + 1) owner then none else some (edges ++ [⟨waiter, place, owner⟩])

/-- The thread does not wait any longer. -/
def stopWaiting (edges : List WaitEdge) (waiter : Thread) : List WaitEdge := edges.filter (·.waiter ≠ waiter)

/-- Nobody waits for the place any longer. -/
def freeWaiters (edges : List WaitEdge) (place : Address) : List WaitEdge := edges.filter (·.place ≠ place)

end WaitEdge

/-- All places, and who waits for which. -/
structure Slots where
  slot : Address → Slot
  edges : List WaitEdge

/-- What a thread finds that wants the value of a place. -/
inductive Grant
  | ready (value : Value)
  /-- The thread is now the one to compute it. -/
  | compute
  /-- Waiting would never end. -/
  | refused
  deriving DecidableEq, Repr

namespace Slots

def empty : Slots := ⟨fun _ => .vacant, []⟩

/-- A thread, just come or just woken, looks at a place. Without an answer it has to sleep. -/
def acquire (s : Slots) (me : Thread) (place : Address) : Slots × Option Grant :=
  let edges := WaitEdge.stopWaiting s.edges me
  match s.slot place with
  | .ready v => (⟨s.slot, edges⟩, some (.ready v))
  | .vacant => (⟨setAt s.slot place (.computing me), edges⟩, some .compute)
  | .computing owner =>
    match WaitEdge.startWaiting edges me place owner with
    | some edges => (⟨s.slot, edges⟩, none)
    | none => (⟨s.slot, edges⟩, some .refused)

def settle (s : Slots) (place : Address) (v : Value) : Slots := { s with slot := setAt s.slot place (.ready v) }

/-- The computation of a place is over: without a value the place is vacant again, and nobody waits for it. -/
def release (s : Slots) (place : Address) : Slots :=
  let edges := WaitEdge.freeWaiters s.edges place
  match s.slot place with
  | .computing _ => ⟨setAt s.slot place .vacant, edges⟩
  | _ => ⟨s.slot, edges⟩

def isReady (s : Slots) (place : Address) : Bool :=
  match s.slot place with
  | .ready _ => true
  | _ => false

end Slots

end Injection
