import Injection.Attempt

/-!
Several threads at the places, as a machine. Each turn is one indivisible step of one thread: a look at a place under
its lock, with the wait edges put down in the same moment; the end of a provider run, which settles the place first,
frees it then, and wakes the sleepers last; or a wake-up for no reason. Within a provider run a thread may go to further
places, to any depth. Any order of turns is possible; a turn that a thread cannot take changes nothing.
-/

namespace Injection

/-- What a provider run comes to. -/
abbrev Outcome := Except (Stop Failure) Value

/-- How far a thread is with a place. -/
inductive Stage
  | arriving
  | asleep
  /-- About to look at the place again. -/
  | woken
  | computing
  /-- After a run that was not cut short by a panic. -/
  | settling (outcome : Outcome)
  | releasing (outcome : Outcome)
  /-- About to wake all who sleep at the place. -/
  | notifying (outcome : Outcome)

/-- One call for the value of a place. -/
structure Visit where
  call : Nat
  place : Address
  stage : Stage

/-- What a call comes back with. -/
inductive Answer
  | value (value : Value)
  /-- The failure or the panic of a run. -/
  | stopped (stop : Stop Failure)
  /-- Waiting would never have ended. -/
  | refused

/-- What is remembered of the calls for good. -/
inductive Deed
  | began (call : Nat) (place : Address)
  | ended (call : Nat) (place : Address) (outcome : Outcome)
  | answered (call : Nat) (place : Address) (answer : Answer)

/-- What a thread does in a turn. -/
inductive Move
  | call (place : Address)
  | look
  /-- Wake up for no reason. -/
  | wake
  | finish (outcome : Outcome)
  | settle
  | release
  | notify

/-- The places, and what every thread does there. -/
structure Crew where
  slots : Slots
  /-- The calls of each thread that have not come back, the innermost first. -/
  visits : Thread → List Visit
  calls : Nat
  /-- All deeds, the last one first. -/
  deeds : List Deed

/-- The answer that a run leaves for its own caller. -/
def Answer.ofOutcome : Outcome → Answer
  | .ok v => value v
  | .error e => stopped e

namespace Visit

def moved (v : Visit) (stage : Stage) : Visit := { v with stage }

/-- A visitor that sleeps at the place is woken. -/
def rouse (place : Address) (v : Visit) : Visit :=
  match v.stage with
  | .asleep => if v.place = place then { v with stage := .woken } else v
  | _ => v

end Visit

namespace Crew

def empty : Crew := ⟨.empty, fun _ => [], 0, []⟩

/-- A thread has these visits from now on. -/
def put (s : Crew) (me : Thread) (visits : List Visit) : Crew := { s with visits := setAt s.visits me visits }

def note (s : Crew) (d : Deed) : Crew := { s with deeds := d :: s.deeds }

def come (s : Crew) (me : Thread) (place : Address) : Crew :=
  { s.put me (⟨s.calls, place, .arriving⟩ :: s.visits me) with calls := s.calls + 1 }

def leave (s : Crew) (me : Thread) (v : Visit) (rest : List Visit) (answer : Answer) : Crew :=
  (s.put me rest).note (.answered v.call v.place answer)

def look (s : Crew) (me : Thread) (v : Visit) (rest : List Visit) : Crew :=
  match s.slots.acquire me v.place with
  | (slots, none) => { s with slots }.put me (v.moved .asleep :: rest)
  | (slots, some (.ready value)) => { s with slots }.leave me v rest (.value value)
  | (slots, some .compute) => ({ s with slots }.put me (v.moved .computing :: rest)).note (.began v.call v.place)
  | (slots, some .refused) => { s with slots }.leave me v rest .refused

/-- A provider run ends; one that panics does not come to settling. -/
def finish (s : Crew) (me : Thread) (v : Visit) (rest : List Visit) (outcome : Outcome) : Crew :=
  let stage : Stage :=
    match outcome with
    | .error (.panicked _) => .releasing outcome
    | _ => .settling outcome
  (s.put me (v.moved stage :: rest)).note (.ended v.call v.place outcome)

def settle (s : Crew) (me : Thread) (v : Visit) (rest : List Visit) (outcome : Outcome) : Crew :=
  let slots :=
    match outcome with
    | .ok value => s.slots.settle v.place value
    | .error _ => s.slots
  { s with slots }.put me (v.moved (.releasing outcome) :: rest)

def release (s : Crew) (me : Thread) (v : Visit) (rest : List Visit) (outcome : Outcome) : Crew :=
  { s with slots := s.slots.release v.place }.put me (v.moved (.notifying outcome) :: rest)

def rouse (s : Crew) (place : Address) : Crew := { s with visits := fun t => (s.visits t).map (.rouse place) }

/-- The sleepers are woken, and the call comes back. -/
def notify (s : Crew) (me : Thread) (v : Visit) (rest : List Visit) (outcome : Outcome) : Crew :=
  (s.rouse v.place).leave me v rest (.ofOutcome outcome)

def step (s : Crew) (me : Thread) (move : Move) : Crew :=
  match s.visits me with
  | [] =>
    match move with
    | .call place => s.come me place
    | _ => s
  | v :: rest =>
    match v.stage, move with
    | .arriving, .look => s.look me v rest
    | .woken, .look => s.look me v rest
    | .asleep, .wake => s.put me (v.moved .woken :: rest)
    | .computing, .call place => s.come me place
    | .computing, .finish outcome => s.finish me v rest outcome
    | .settling outcome, .settle => s.settle me v rest outcome
    | .releasing outcome, .release => s.release me v rest outcome
    | .notifying outcome, .notify => s.notify me v rest outcome
    | _, _ => s

/-- The turns of all threads, one after the other. -/
def after (s : Crew) (turns : List (Thread × Move)) : Crew := turns.foldl (fun s turn => s.step turn.1 turn.2) s

end Crew

end Injection
