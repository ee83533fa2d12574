import Injection.Store

/-!
What threads do, as processes: trees of actions on the store, each action one indivisible turn. A lone process runs to
its end without waiting, since nobody else could end the wait.
-/

namespace Injection

/-- One turn of a thread. -/
inductive Action
  | tell (event : Event)
  | note (happening : Happening)
  | enter (place : Address)
  | leave (place : Address)
  | acquire (place : Address)
  | settle (place : Address) (value : Value)
  | release (place : Address)
  | countRun (place : Address) (tag : String)
  | nextSerial
  /-- Takes the number of a container to come. -/
  | nextIdentity
  /-- Takes the number of a set of configs. -/
  | numberConfigs
  | postpone (container : Container) (key : Key)
  | remember (handle : Lazy)
  | reclaim (handle : Lazy)
  | keep (handle : Lazy) (value : Value)
  | leadsUp (handle : Lazy) (container : Container)
  | hold (container : Container)
  | letGo (container : Container)
  | arrive (gate : String)
  | await (gate : String) (count : Nat)

namespace Action

/-- What an action tells the thread. -/
@[reducible] def Reply : Action → Type
  | enter _ => Bool
  | acquire _ => Grant
  | countRun _ _ => Nat
  | nextSerial => Nat
  | nextIdentity => Nat
  | numberConfigs => Nat
  | postpone _ _ => Lazy
  | remember _ => Option Value
  | reclaim _ => Option Cell
  | keep _ _ => Value
  | leadsUp _ _ => Bool
  | _ => Unit

/-- What an action does to the store. Without a reply the thread has to wait and try again. -/
def perform (me : Thread) : (a : Action) → Store → Store × Option a.Reply
  | tell e, s => (s.tell e, some ())
  | note h, s => (s.note h, some ())
  | enter p, s => (s.enter me p).map id some
  | leave p, s => (s.leave me p, some ())
  | acquire p, s => (s.slots.acquire me p).map (fun slots => { s with slots }) id
  | settle p v, s => ({ s with slots := s.slots.settle p v }, some ())
  | release p, s => ({ s with slots := s.slots.release p }, some ())
  | countRun p tag, s => (s.countRun p tag).map id some
  | nextSerial, s => s.nextSerial.map id some
  | nextIdentity, s => s.nextIdentity.map id some
  | numberConfigs, s => s.nextIdentity.map id some
  | postpone c k, s => (s.postpone c k).map id some
  | remember l, s => (s.remember l).map id some
  | reclaim l, s => (s.reclaim l).map id some
  | keep l v, s => (s.keep l v).map id some
  | leadsUp l c, s => (s, some (s.leadsUp l c))
  | hold c, s => (s.hold c, some ())
  | letGo c, s => (s.letGo c, some ())
  | arrive g, s => (s.arrive g, some ())
  | await g n, s => (s, if s.gates g < n then none else some ())

/-- What a thread gets that will not wait: a gate lets it pass and a place refuses it. No other action makes a thread
wait. -/
def unwaited : (a : Action) → a.Reply
  | tell _ => ()
  | note _ => ()
  | enter _ => false
  | leave _ => ()
  | acquire _ => .refused
  | settle _ _ => ()
  | release _ => ()
  | countRun _ _ => 0
  | nextSerial => 0
  | nextIdentity => 0
  | numberConfigs => 0
  | postpone _ k => ⟨0, k⟩
  | remember _ => none
  | reclaim _ => none
  | keep _ v => v
  | leadsUp _ _ => false
  | hold _ => ()
  | letGo _ => ()
  | arrive _ => ()
  | await _ _ => ()

def performAlone (me : Thread) (a : Action) (s : Store) : a.Reply × Store :=
  match a.perform me s with
  | (s', some r) => (r, s')
  | (_, none) => (a.unwaited, s)

/-- The store after an action of a thread that is alone. -/
def after (me : Thread) (a : Action) (s : Store) : Store := (a.performAlone me s).2

@[simp] theorem after_leave (me : Thread) (place : Address) (s : Store) :
    (leave place).after me s = s.leave me place := rfl

@[simp] theorem after_release (me : Thread) (place : Address) (s : Store) :
    (release place).after me s = { s with slots := s.slots.release place } := rfl

@[simp] theorem after_letGo (me : Thread) (c : Container) (s : Store) : (letGo c).after me s = s.letGo c := rfl

end Action

/-- A tree of actions that ends with a result. -/
inductive Process (α : Type) : Type
  | done (result : α)
  | act (action : Action) (next : action.Reply → Process α)

namespace Process

variable {α β : Type}

def bind : Process α → (α → Process β) → Process β
  | done a, f => f a
  | act a next, f => act a fun r => (next r).bind f

instance : Monad Process where
  pure := done
  bind := bind

theorem bind_done (p : Process α) : p.bind done = p := by
  induction p with
  | done a => rfl
  | act a next ih => simp only [bind, ih]

theorem bind_assoc {γ : Type} (p : Process α) (f : α → Process β) (g : β → Process γ) :
    (p.bind f).bind g = p.bind fun a => (f a).bind g := by
  induction p with
  | done a => rfl
  | act a next ih => simp only [bind, ih]

instance : LawfulMonad Process := LawfulMonad.mk' Process bind_done (fun _ _ => rfl) bind_assoc

def perform (a : Action) : Process a.Reply := act a done

def alone (me : Thread) : Process α → Store → α × Store
  | done a, s => (a, s)
  | act a next, s =>
    let (r, s) := a.performAlone me s
    alone me (next r) s

theorem alone_bind (me : Thread) (p : Process α) (f : α → Process β) (s : Store) :
    (p.bind f).alone me s = (f (p.alone me s).1).alone me (p.alone me s).2 := by
  induction p generalizing s with
  | done a => rfl
  | act a next ih => simp only [bind, alone, ih]

end Process

end Injection
