import Injection.Failure

/-!
Values, and what is known of the making of each. A value made by a provider, bound as it is, or offered as a config has
a serial number, and two values with one number are one and the same. A set of configs is a value too, with an identity
of its own.
-/

namespace Injection

/-- A handle whose value is looked up when it is first used. Copies share their number, and with it what was found. -/
structure Lazy where
  id : Nat
  key : Key
  deriving DecidableEq, Repr

/-- A config: one value of its type, for everyone below the container that brings it. -/
structure Config where
  type : TypeInfo
  serial : Nat
  tag : String
  deriving DecidableEq, Repr

/-- What a value points back at: its serial number and type, or the number of configs it holds. -/
inductive Reference
  | made (serial : Nat) (type : TypeInfo)
  | configs (size : Nat)
  deriving DecidableEq, Repr

/-- What a provider run noted down about one of its requests. -/
inductive Note
  | value (reference : Reference)
  | deferred
  | requester (label : String) (key : Option Key)
  | absent
  | present (inner : Note)
  | failed (failure : Failure)
  deriving DecidableEq, Repr

/-- How a value came to be. -/
inductive Making
  /-- By a provider: for which key, in which container, and what its requests gave it. -/
  | provided (tag : String) (requester : Key) (label : String) (notes : List Note) (lazies : List Lazy)
  | given (tag : String)
  | config (tag : String)
  deriving DecidableEq, Repr

/-- What a container hands out. -/
inductive Value
  | made (type : TypeInfo) (serial : Nat) (making : Making)
  | configs (id : Nat) (entries : List Config)
  deriving DecidableEq, Repr

/-- The type of the values that hold configs. -/
def TypeInfo.configs : TypeInfo :=
  ⟨0, "wireup_config::provider::ConfigProvider", .record "ConfigProvider"⟩

/-- The key under which configs are looked up. -/
def Key.configs : Key := .ofType .configs

/-- What makes two values one and the same. -/
inductive Identity
  | made (serial : Nat)
  | configs (id : Nat)
  deriving DecidableEq, Repr

def Config.value (c : Config) : Value := .made c.type c.serial (.config c.tag)

namespace Value

def type : Value → TypeInfo
  | made type _ _ => type
  | configs _ _ => .configs

def identity : Value → Identity
  | made _ serial _ => .made serial
  | configs id _ => .configs id

def reference : Value → Reference
  | made type serial _ => .made serial type
  | configs _ entries => .configs entries.length

def entries : Value → List Config
  | made _ _ _ => []
  | configs _ entries => entries

theorem type_config (config : Config) : config.value.type = config.type := rfl

/-- The lazy handles obtained while the value was made, in order. -/
def lazies : Value → List Lazy
  | made _ _ (.provided _ _ _ _ lazies) => lazies
  | _ => []

/-- A value as text, by the shape of its type. -/
def text : Value → String
  | made type serial _ =>
    match type.shape with
    | .record name => name ++ "(" ++ toString serial ++ ")"
    | .number => toString serial
    | .text => Text.quoted ("s" ++ toString serial)
  | configs _ _ => "ConfigProvider"

end Value

end Injection
