import Injection.Inspection
import Injection.Names
import Injection.Process.Together
import Injection.Session.Command

/-!
Sessions: commands that build containers, ask them and let them go, with everything held by name. A container lives as
long as a name, a builder or a container below it holds it; values and lazy handles hold none. Each command has one
reply and reports the provider runs and the events it caused. A command that goes wrong leaves the session usable.
-/

namespace Injection

/-- Everything that is held by name, and the store behind it. -/
structure Session where
  store : Store
  builders : Names Builder
  containers : Names Container
  values : Names Value
  lazies : Names Lazy
  configs : Names Configs

namespace Session

def empty : Session := ⟨.empty, .empty, .empty, .empty, .empty, .empty⟩

/-- The containers that the session's names hold. -/
def held (s : Session) : List Container := s.containers.items ++ s.builders.items.flatMap (·.parents)

/-- The part of a session that carries out a command. -/
abbrev Task (α : Type) := ExceptT Problem (StateM Session) α

namespace Task

variable {α ε : Type}

/-- The one thread of a session that is not started by a command. -/
def mainThread : Thread := 0

/-- Makes an attempt; where it stops short, the command does. -/
def attempt (x : Attempt ε α) (problem : ε → Problem) : Task α := do
  let s ← get
  let (result, store) := x.eval mainThread { s.store with held := s.held }
  set { s with store }
  match result with
  | .ok a => pure a
  | .error (.failed e) => throw (problem e)
  | .error (.panicked message) => throw (.panic message)
  | .error .exhausted => throw .exhausted

def perform (x : Attempt Problem α) : Task α := attempt x id

def named (names : Session → Names α) (kind name : String) : Task α := do
  match (names (← get)).get? name with
  | some a => pure a
  | none => throw (.unknown ("no " ++ kind ++ " " ++ name))

def builder (b : String) : Task Builder := named Session.builders "builder" b

def container (c : String) : Task Container := named Session.containers "container" c

def value (v : String) : Task Value := named Session.values "value" v

def handle (l : String) : Task Lazy := named Session.lazies "lazy" l

def configSet (p : String) : Task Configs := named Session.configs "config provider" p

/-- One of the lazy handles obtained while a value was made. -/
def innerHandle (v : String) (index : Nat) : Task Lazy := do
  match (← value v).lazies[index]? with
  | some l => pure l
  | none => throw (.unknown "no such lazy")

def setBuilder (name : String) (b : Builder) : Task Reply := do
  modify fun s => { s with builders := s.builders.set name b }
  pure (.size b.registry.size)

def setContainer (name : String) (c : Container) : Task Unit :=
  modify fun s => { s with containers := s.containers.set name c }

def setValue (name : Option String) (v : Value) : Task Unit :=
  modify fun s => { s with values := s.values.set? name v }

def setHandle (name : Option String) (l : Lazy) : Task Unit :=
  modify fun s => { s with lazies := s.lazies.set? name l }

def setConfigs (name : String) (p : Configs) : Task Unit :=
  modify fun s => { s with configs := s.configs.set name p }

def found (l : Lazy) : Task (Option Value) := do
  pure ((← get).store.found? l)

/-- Names what a request brought, and shows it. -/
def bring (r : Resolved) (name : Option String) : Task Reply := do
  match r.value? with
  | some v => setValue name v
  | none => pure ()
  match r.lazy? with
  | some l => do
    setHandle name l
    pure (.handle (← found l).isSome)
  | none => pure (.resolved r)

def useHandle (l : Lazy) (name : Option String) : Task Reply := do
  let v ← attempt l.use .request
  setValue name v
  pure (.resolved (.value v))

def constructed (c : Container) : Task Nat := do
  pure ((← get).store.constructedCount c)

/-- Adds a binding to a builder. A builder keeps a refusal to itself, unless it was only asked to try. -/
def addBinding (name : String) (b : Builder) (binding : Binding) (tries : Bool) : Task Reply := do
  perform (Attempt.tell? (b.registry.event? binding))
  if tries then
    match b.tryAdd binding with
    | .ok b => setBuilder name b
    | .error e => throw (.registry e)
  else setBuilder name (b.add binding)

/-- Adds what a draft becomes, which it does even if there is no such builder. -/
def addDraft (name : String) (draft : Draft) (tries : Bool) : Task Reply := do
  let binding ← perform draft.make
  addBinding name (← builder name) binding tries

/-- Has one thread for each request ask a container, all at once. Nothing is told of the single runs and events, which
come in no certain order. -/
def together (c : Container) (requests : List Request) : Task Reply := do
  let s ← get
  let threads := requests.map fun r => (c.resolve r).run
  let (ended, store) := Process.together (mainThread + 1) threads { s.store with held := s.held }
  set { s with store := { store with calls := [], events := [] } }
  pure (.harvest ⟨Process.results ended, store.calls.length, store.constructedCount c⟩)

def exec : Command → Task Reply
  | .newBuilder b label =>
    setBuilder b (match label with | some label => Builder.new.withLabel label | none => .new)
  | .child c b => do setBuilder b (.below (← container c))
  | .label b label => do setBuilder b ((← builder b).withLabel label)
  | .parent b c => do
    let parent ← container c
    setBuilder b ((← builder b).withParent parent)
  | .add b draft .made => do
    let builder ← builder b
    addBinding b builder (← perform draft.make) false
  | .add b draft .given => addDraft b draft false
  | .add b draft .tried => addDraft b draft true
  | .peek b k => return .binding ((← builder b).registry.lookup k)
  | .build b c eager => do
    let builder ← builder b
    modify fun s => { s with builders := s.builders.erase b }
    let built ← attempt (builder.finish eager) .build
    setContainer c built
    pure (.built built (← constructed built))
  | .ask c request name => do
    let c ← container c
    bring (← attempt (c.resolve request) .request) name
  | .use l name => do useHandle (← handle l) name
  | .inspect l name => do
    let l ← handle l
    setHandle name l
    let v ← found l
    pure (.handleText v.isSome (Lazy.text v))
  | .useInner v index name => do useHandle (← innerHandle v index) name
  | .inspectInner v index name => do
    let l ← innerHandle v index
    setHandle name l
    pure (.handle (← found l).isSome)
  | .same v w => do
    let s ← get
    match s.values.get? v, s.values.get? w with
    | some v, some w => pure (.flag (v.identity = w.identity))
    | _, _ => throw (.unknown "no such value")
  | .cast v type => do
    let v ← value v
    pure (.cast (if v.type = type then .ok v else .error v.type))
  | .info c => do
    let c ← container c
    let store := (← get).store
    pure (.info c (store.constructedCount c) (c.text store) (c.lines store))
  | .graph c => return .graph (← container c).graph
  | .root c k => return .order ((← container c).graph.rootOrder k)
  | .find c k => return .lookup (← container c) k
  | .rename c name => do
    setContainer name (← container c)
    pure .nothing
  | .ancestor c index name => do
    match (← container c).parents[index]? with
    | some p => do
      setContainer name p
      pure (.label p.label)
    | none => throw (.unknown "no such parent")
  | .identical c d => do
    let c ← container c
    pure (.flag (c.id = (← container d).id))
  | .drop c => do
    let s ← get
    set { s with containers := s.containers.erase c }
    pure (.flag (s.containers.get? c).isSome)
  | .newConfigs p => do
    setConfigs p .empty
    pure .nothing
  | .addConfig p type tag => do
    let configs ← configSet p
    let serial ← perform Attempt.nextSerial
    match configs.add ⟨type, serial, tag⟩ with
    | .error e => throw (.config e)
    | .ok configs => do
      perform (Attempt.tell .debug ("Added config " ++ type.name))
      setConfigs p configs
      pure (.size configs.size)
  | .skipConfig p => do
    match (← configSet p).maybeAdd none with
    | .error e => throw (.config e)
    | .ok configs => do
      setConfigs p configs
      pure (.size configs.size)
  | .findConfig p type => do
    match (← configSet p).get type with
    | .error e => throw (.config e)
    | .ok found => pure (.config found)
  | .countConfigs p => return .configs (← configSet p)
  | .installConfigs b p => do
    let builder ← builder b
    let configs ← configSet p
    modify fun s => { s with configs := s.configs.erase p }
    let id ← perform Attempt.numberConfigs
    addBinding b builder (configs.binding id) false
  | .together c requests => do together (← container c) requests

end Task

/-- Carries out a command and reports on it, with the events in the order of reports. -/
def exec (s : Session) (c : Command) : Report × Session :=
  let quiet := { s with store := { s.store with calls := [], events := [] } }
  let (reply, s) := (Task.exec c).run.run quiet
  (⟨reply, s.store.calls.reverse, Event.arrange s.store.events.reverse⟩, s)

def execAll (s : Session) : List Command → List Report × Session
  | [] => ([], s)
  | c :: cs =>
    let (report, s) := s.exec c
    let (reports, s) := s.execAll cs
    (report :: reports, s)

end Session

end Injection
