import Injection.Request
import Injection.Text.Layout

/-!
Bindings. A binding files a source of values under a key: either one value that is there from the start, or a recipe
that a provider follows for each value. A recipe may build containers of its own, out of bindings that are only drafts:
the instances in a draft come into being when the recipe is followed, each time anew.
-/

namespace Injection

/-- What happens to a binding whose key is taken, and how a binding stands against its siblings. -/
inductive Policy
  | fail
  | override
  | ignore
  deriving DecidableEq, Repr

namespace Policy

def text : Policy → String
  | fail => "Fail"
  | override => "Override"
  | ignore => "Ignore"

end Policy

/-- What a provider does for one value: its steps in order, and then it makes a value of a type, or hands on the value
bound under another key. -/
structure Recipe (step : Type) where
  makes : TypeInfo
  tag : String
  steps : List step
  handsOn : Option Key

/-- Where the values of a binding come from. -/
inductive Source (given step : Type)
  | given (value : given)
  | recipe (recipe : Recipe step)

/-- A source of values filed under a key, with what it needs, how it stands against others and whether one value is
kept for all requests. -/
structure BindingOf (given step : Type) where
  key : Key
  source : Source given step
  dependencies : List Dependency
  policy : Policy
  isScoped : Bool

/-- An instance that is still to come into being. -/
structure Sample where
  type : TypeInfo
  tag : String
  deriving DecidableEq, Repr

/-- One step of a recipe. What a request brings is noted down; one that fails ends the recipe with its failure, unless
the step catches failures and notes it down instead. -/
inductive Step
  /-- Give up, in every run or only in the first ones. -/
  | fail (message : String) (runs : Option Nat)
  /-- Panic, in every run or only in the first ones. -/
  | panic (message : String) (runs : Option Nat)
  | pause
  /-- Wait at a gate until as many have arrived there. -/
  | meet (gate : String) (count : Nat)
  /-- Ask through the provider's own handle, or directly at the ancestor that a path of parent numbers leads to. -/
  | ask (request : Request) (path : Option (List Nat)) (catches : Bool)
  /-- Use a lazy handle obtained earlier in the run, counted from zero. -/
  | use (index : Nat) (catches : Bool)
  /-- Use one of the lazy handles that a value obtained earlier in the run brings along, both counted from zero. It must
  not have any other living container asked than the provider's own and those above it. -/
  | useInner (value index : Nat) (catches : Bool)
  /-- Add a config to the set that is made in the end, if the recipe makes one. -/
  | addConfig (type : TypeInfo) (tag : String)
  /-- Build a child container, ask it, and let it go. -/
  | nest (bindings : List (BindingOf Sample Step)) (eager : Bool) (request : Request) (catches : Bool)

abbrev Draft := BindingOf Sample Step

abbrev Binding := BindingOf Value Step

namespace BindingOf

variable {given step : Type}

def ofValue (type : TypeInfo) (value : given) : BindingOf given step :=
  ⟨.ofType type, .given value, [], .fail, true⟩

/-- A provider of values of a type, each request having its own. -/
def provider (recipe : Recipe step) : BindingOf given step :=
  ⟨.ofType recipe.makes, .recipe recipe, [], .fail, false⟩

/-- A provider that says itself what it supplies, what it needs and whether its value is kept. -/
def factory (supplies : Key) (dependencies : List Dependency) (isScoped : Bool) (recipe : Recipe step) :
    BindingOf given step :=
  ⟨supplies, .recipe recipe, dependencies, .fail, isScoped⟩

def named (b : BindingOf given step) (qualifier : String) : BindingOf given step :=
  { b with key := b.key.named qualifier }

def keeping (b : BindingOf given step) : BindingOf given step := { b with isScoped := true }

def dependingOn (b : BindingOf given step) (dependencies : List Dependency) : BindingOf given step :=
  { b with dependencies := b.dependencies ++ dependencies }

def withPolicy (b : BindingOf given step) (policy : Policy) : BindingOf given step := { b with policy := policy }

def withSource {other : Type} (b : BindingOf given step) (source : Source other step) : BindingOf other step :=
  ⟨b.key, source, b.dependencies, b.policy, b.isScoped⟩

def isInstance (b : BindingOf given step) : Bool :=
  match b.source with
  | .given _ => true
  | .recipe _ => false

/-- Whether a container keeps a place for the binding's value: a scoped provider has one, an instance needs none. -/
def isKept (b : BindingOf given step) : Bool := b.isScoped && !b.isInstance

def fields (b : BindingOf given step) : List Text.Field :=
  [("key", Text.quoted b.key.text), ("source", Text.quoted (if b.isInstance then "instance" else "provider")),
    ("dependencies", toString b.dependencies.length), ("policy", b.policy.text), ("scoped", toString b.isScoped)]

def text (b : BindingOf given step) : String := Text.record "Binding" b.fields

def lines (b : BindingOf given step) : String := Text.recordLines "Binding" b.fields

end BindingOf

/-- The binding a draft becomes; an instance in it has the serial number. -/
def BindingOf.realize (draft : Draft) (serial : Nat) : Binding :=
  match draft.source with
  | .given sample => draft.withSource (.given (.made sample.type serial (.given sample.tag)))
  | .recipe r => draft.withSource (.recipe r)

/-! ### How much a recipe can hold -/

mutual

/-- The most bindings that a step can bring into being, those within them included. -/
def Step.weight : Step → Nat
  | .nest drafts _ _ _ => Drafts.weight drafts
  | _ => 0

def Steps.weight : List Step → Nat
  | [] => 0
  | s :: ss => s.weight + Steps.weight ss

def Drafts.weight : List (BindingOf Sample Step) → Nat
  | [] => 0
  | ⟨_, .given _, _, _, _⟩ :: drafts => 1 + Drafts.weight drafts
  | ⟨_, .recipe ⟨_, _, steps, _⟩, _, _, _⟩ :: drafts => (1 + Steps.weight steps) + Drafts.weight drafts

end

/-- One for the binding itself, and what its recipe can bring into being. -/
def BindingOf.weight {given : Type} (b : BindingOf given Step) : Nat :=
  match b.source with
  | .given _ => 1
  | .recipe r => 1 + Steps.weight r.steps

end Injection
