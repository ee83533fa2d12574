import Injection.Configs
import Injection.Resolution

/-!
The commands of a session, and what it answers. A command names what it is about; what it asks of a container or adds
to a builder is given in full.
-/

namespace Injection

/-- How a binding comes to a builder. -/
inductive Adding
  /-- It is there before the builder is looked for. The builder keeps a refusal to itself. -/
  | given
  /-- The same, but a refusal is the answer. -/
  | tried
  /-- The builder brings it into being. It keeps a refusal to itself. -/
  | made
  deriving DecidableEq, Repr

/-- What one can tell a session to do. -/
inductive Command
  | newBuilder (b : String) (label : Option String)
  | child (c b : String)
  | label (b label : String)
  | parent (b c : String)
  | add (b : String) (draft : Draft) (adding : Adding)
  | peek (b : String) (k : Key)
  | build (b c : String) (eager : Bool)
  | ask (c : String) (request : Request) (name : Option String)
  | use (l : String) (name : Option String)
  | inspect (l : String) (name : Option String)
  | useInner (v : String) (index : Nat) (name : Option String)
  | inspectInner (v : String) (index : Nat) (name : Option String)
  | same (v w : String)
  | cast (v : String) (type : TypeInfo)
  | info (c : String)
  | graph (c : String)
  | root (c : String) (k : Key)
  | find (c : String) (k : Key)
  | rename (c name : String)
  | ancestor (c : String) (index : Nat) (name : String)
  | identical (c d : String)
  | drop (c : String)
  | newConfigs (p : String)
  | addConfig (p : String) (type : TypeInfo) (tag : String)
  | skipConfig (p : String)
  | findConfig (p : String) (type : TypeInfo)
  | countConfigs (p : String)
  | installConfigs (b p : String)
  | together (c : String) (requests : List Request)

structure Harvest where
  outcomes : List (Except (Stop Failure) Resolved)
  runs : Nat
  constructed : Nat

namespace Harvest

/-- How many different values the threads brought. -/
def variety (h : Harvest) : Nat :=
  (distinct (h.outcomes.filterMap fun o => o.toOption.bind fun r => r.value?.map Value.identity)).length

end Harvest

inductive Reply
  | nothing
  | flag (yes : Bool)
  | size (n : Nat)
  | label (text : String)
  | binding (found : Option Binding)
  | built (container : Container) (constructed : Nat)
  | resolved (result : Resolved)
  | handle (found : Bool)
  | handleText (found : Bool) (text : String)
  | cast (result : Except TypeInfo Value)
  | info (container : Container) (constructed : Nat) (text lines : String)
  | graph (graph : Graph)
  | order (result : Except (List LinkError) (List Key))
  | lookup (container : Container) (key : Key)
  | config (found : Option Config)
  | configs (set : Configs)
  | harvest (harvest : Harvest)

/-- Why a command was not carried out. -/
inductive Problem
  | registry (error : RegistryError)
  | build (error : BuildError)
  | request (failure : Failure)
  | config (error : ConfigError)
  | panic (message : String)
  /-- The request nested deeper than any request can. -/
  | exhausted
  /-- A name in the command stands for nothing. -/
  | unknown (message : String)

/-- The answer to a command, and what happened on the way. -/
structure Report where
  reply : Except Problem Reply
  calls : List Call
  events : List Event

end Injection
