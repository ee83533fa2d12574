import Injection.Process

/-!
Processes that may stop short. An attempt gives a value, fails with an error, panics, or runs out of the depth it was
given. A failure can be caught and turned into another one; a panic passes through everything. Whatever was opened on
the way is closed on every way out.
-/

namespace Injection

/-- Why an attempt stopped short. -/
inductive Stop (ε : Type)
  | failed (error : ε)
  | panicked (message : String)
  | exhausted
  deriving DecidableEq, Repr

namespace Stop

variable {ε ε' : Type}

def map (f : ε → ε') : Stop ε → Stop ε'
  | failed e => failed (f e)
  | panicked message => panicked message
  | exhausted => exhausted

end Stop

/-- A process that may stop short. -/
abbrev Attempt (ε α : Type) := ExceptT (Stop ε) Process α

namespace Attempt

variable {ε ε' α : Type}

def perform (a : Action) : Attempt ε a.Reply := ExceptT.lift (Process.perform a)

def fail (e : ε) : Attempt ε α := throw (.failed e)

def panic (message : String) : Attempt ε α := throw (.panicked message)

/-! ### The actions one by one -/

def tell (level : Level) (message : String) : Attempt ε Unit := perform (.tell ⟨level, message⟩)

def note (h : Happening) : Attempt ε Unit := perform (.note h)

/-- Goes into the construction of a binding; false if the thread is in it already. -/
def enter (place : Address) : Attempt ε Bool := perform (.enter place)

def acquire (place : Address) : Attempt ε Grant := perform (.acquire place)

def settle (place : Address) (v : Value) : Attempt ε Unit := perform (.settle place v)

def countRun (place : Address) (tag : String) : Attempt ε Nat := perform (.countRun place tag)

def nextSerial : Attempt ε Nat := perform .nextSerial

def nextIdentity : Attempt ε Nat := perform .nextIdentity

def numberConfigs : Attempt ε Nat := perform .numberConfigs

def postpone (c : Container) (k : Key) : Attempt ε Lazy := perform (.postpone c k)

def remember (l : Lazy) : Attempt ε (Option Value) := perform (.remember l)

/-- Takes hold of the container of a lazy handle, if it is still alive. -/
def reclaim (l : Lazy) : Attempt ε (Option Cell) := perform (.reclaim l)

def keep (l : Lazy) (v : Value) : Attempt ε Value := perform (.keep l v)

/-- Looks whether the use of a lazy handle leads nowhere but to a container and those above it. -/
def leadsUp (l : Lazy) (c : Container) : Attempt ε Bool := perform (.leadsUp l c)

def hold (c : Container) : Attempt ε Unit := perform (.hold c)

def arrive (gate : String) : Attempt ε Unit := perform (.arrive gate)

def await (gate : String) (count : Nat) : Attempt ε Unit := perform (.await gate count)

/-! ### Ways out -/

/-- Performs a last action whichever way the attempt ends. -/
def closing (last : Action) (body : Attempt ε α) : Attempt ε α :=
  ExceptT.mk (body.run.bind fun result => (Process.perform last).bind fun _ => .done result)

/-- The value or the error of an attempt, so that both can be looked at. -/
def outcome (body : Attempt ε α) : Attempt ε' (Except ε α) :=
  ExceptT.mk <| body.run.bind fun result =>
    .done <|
      match result with
      | .ok a => .ok (.ok a)
      | .error (.failed e) => .ok (.error e)
      | .error (.panicked message) => .error (.panicked message)
      | .error .exhausted => .error .exhausted

/-- The attempt with its error put in other terms. -/
def mapError (f : ε → ε') (body : Attempt ε α) : Attempt ε' α :=
  ExceptT.mk (body.run.bind fun result => .done (result.mapError (.map f)))

/-! ### Attempts of a thread that is alone -/

/-- What an attempt comes to when nobody else is there. -/
def eval (x : Attempt ε α) (me : Thread) (s : Store) : Except (Stop ε) α × Store := Process.alone me x.run s

@[simp] theorem eval_pure (a : α) (me : Thread) (s : Store) : eval (pure a : Attempt ε α) me s = (.ok a, s) := rfl

@[simp] theorem eval_throw (e : Stop ε) (me : Thread) (s : Store) :
    eval (throw e : Attempt ε α) me s = (.error e, s) := rfl

@[simp] theorem eval_fail (e : ε) (me : Thread) (s : Store) :
    eval (fail e : Attempt ε α) me s = (.error (.failed e), s) := rfl

@[simp] theorem eval_panic (message : String) (me : Thread) (s : Store) :
    eval (panic message : Attempt ε α) me s = (.error (.panicked message), s) := rfl

theorem eval_perform (a : Action) (me : Thread) (s : Store) :
    eval (perform a : Attempt ε a.Reply) me s = (.ok (a.performAlone me s).1, (a.performAlone me s).2) := rfl

@[simp] theorem eval_tell (level : Level) (message : String) (me : Thread) (s : Store) :
    eval (tell level message : Attempt ε Unit) me s = (.ok (), s.tell ⟨level, message⟩) := rfl

@[simp] theorem eval_note (h : Happening) (me : Thread) (s : Store) :
    eval (note h : Attempt ε Unit) me s = (.ok (), s.note h) := rfl

@[simp] theorem eval_enter (place : Address) (me : Thread) (s : Store) :
    eval (enter place : Attempt ε Bool) me s = (.ok (s.enter me place).2, (s.enter me place).1) := rfl

theorem eval_acquire (place : Address) (me : Thread) (s : Store) :
    eval (acquire place : Attempt ε Grant) me s =
      match s.slots.acquire me place with
      | (slots, some grant) => (.ok grant, { s with slots })
      | (_, none) => (.ok .refused, s) := by
  rw [acquire, eval_perform, Action.performAlone, Action.perform]
  rcases s.slots.acquire me place with ⟨_, _ | _⟩ <;> rfl

@[simp] theorem eval_settle (place : Address) (v : Value) (me : Thread) (s : Store) :
    eval (settle place v : Attempt ε Unit) me s = (.ok (), { s with slots := s.slots.settle place v }) := rfl

@[simp] theorem eval_countRun (place : Address) (tag : String) (me : Thread) (s : Store) :
    eval (countRun place tag : Attempt ε Nat) me s = (.ok (s.countRun place tag).2, (s.countRun place tag).1) := rfl

@[simp] theorem eval_nextSerial (me : Thread) (s : Store) :
    eval (nextSerial : Attempt ε Nat) me s = (.ok s.nextSerial.2, s.nextSerial.1) := rfl

@[simp] theorem eval_nextIdentity (me : Thread) (s : Store) :
    eval (nextIdentity : Attempt ε Nat) me s = (.ok s.nextIdentity.2, s.nextIdentity.1) := rfl

@[simp] theorem eval_numberConfigs (me : Thread) (s : Store) :
    eval (numberConfigs : Attempt ε Nat) me s = (.ok s.nextIdentity.2, s.nextIdentity.1) := rfl

@[simp] theorem eval_postpone (c : Container) (k : Key) (me : Thread) (s : Store) :
    eval (postpone c k : Attempt ε Lazy) me s = (.ok (s.postpone c k).2, (s.postpone c k).1) := rfl

@[simp] theorem eval_remember (l : Lazy) (me : Thread) (s : Store) :
    eval (remember l : Attempt ε (Option Value)) me s = (.ok (s.remember l).2, (s.remember l).1) := rfl

@[simp] theorem eval_reclaim (l : Lazy) (me : Thread) (s : Store) :
    eval (reclaim l : Attempt ε (Option Cell)) me s = (.ok (s.reclaim l).2, (s.reclaim l).1) := rfl

@[simp] theorem eval_keep (l : Lazy) (v : Value) (me : Thread) (s : Store) :
    eval (keep l v : Attempt ε Value) me s = (.ok (s.keep l v).2, (s.keep l v).1) := rfl

@[simp] theorem eval_leadsUp (l : Lazy) (c : Container) (me : Thread) (s : Store) :
    eval (leadsUp l c : Attempt ε Bool) me s = (.ok (s.leadsUp l c), s) := rfl

@[simp] theorem eval_hold (c : Container) (me : Thread) (s : Store) :
    eval (hold c : Attempt ε Unit) me s = (.ok (), s.hold c) := rfl

@[simp] theorem eval_arrive (gate : String) (me : Thread) (s : Store) :
    eval (arrive gate : Attempt ε Unit) me s = (.ok (), s.arrive gate) := rfl

@[simp] theorem eval_await (gate : String) (count : Nat) (me : Thread) (s : Store) :
    eval (await gate count : Attempt ε Unit) me s = (.ok (), s) := by
  rw [await, eval_perform, Action.performAlone, Action.perform]
  split <;> simp_all

/-- One attempt after another goes on from the value and the store of the first, or stops where the first does. -/
theorem eval_bind {β : Type} (x : Attempt ε α) (f : α → Attempt ε β) (me : Thread) (s : Store) :
    eval (x >>= f) me s =
      match eval x me s with
      | (.ok a, s) => eval (f a) me s
      | (.error e, s) => (.error e, s) := by
  refine (Process.alone_bind me x.run _ s).trans ?_
  change Process.alone me (ExceptT.bindCont f (eval x me s).1) (eval x me s).2 = _
  obtain ⟨result, s⟩ := eval x me s
  cases result <;> rfl

@[simp] theorem eval_map {β : Type} (f : α → β) (x : Attempt ε α) (me : Thread) (s : Store) :
    eval (f <$> x) me s = ((eval x me s).1.map f, (eval x me s).2) := by
  rw [← bind_pure_comp, eval_bind]
  rcases eval x me s with ⟨_ | a, s⟩ <;> rfl

theorem eval_closing (last : Action) (x : Attempt ε α) (me : Thread) (s : Store) :
    eval (closing last x) me s = ((eval x me s).1, last.after me (eval x me s).2) :=
  Process.alone_bind me x.run _ s

theorem eval_outcome (x : Attempt ε α) (me : Thread) (s : Store) :
    eval (outcome x : Attempt ε' (Except ε α)) me s =
      match eval x me s with
      | (.ok a, s) => (.ok (.ok a), s)
      | (.error (.failed e), s) => (.ok (.error e), s)
      | (.error (.panicked message), s) => (.error (.panicked message), s)
      | (.error .exhausted, s) => (.error .exhausted, s) := by
  refine (Process.alone_bind me x.run _ s).trans ?_
  rw [eval]
  rcases x.run.alone me s with ⟨(_ | _ | _) | _, _⟩ <;> rfl

theorem eval_mapError (f : ε → ε') (x : Attempt ε α) (me : Thread) (s : Store) :
    eval (mapError f x) me s = ((eval x me s).1.mapError (.map f), (eval x me s).2) :=
  Process.alone_bind me x.run _ s

end Attempt

end Injection
