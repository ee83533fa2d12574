import Injection.Binding

/-!
Sets of configs. A set holds at most one config of each type and is offered to containers as one value, under a key of
its own; every container below finds it there.
-/

namespace Injection

/-- Configs in the order they were added. -/
structure Configs where
  entries : List Config
  deriving DecidableEq, Repr

namespace Configs

def empty : Configs := ⟨[]⟩

def size (s : Configs) : Nat := s.entries.length

def find? (s : Configs) (type : TypeInfo) : Option Config := s.entries.find? (·.type = type)

/-- The config that is filed under a type, if its value is of that type. -/
def get (s : Configs) (type : TypeInfo) : Except ConfigError (Option Config) :=
  match s.find? type with
  | none => .ok none
  | some config => if config.value.type = type then .ok (some config) else .error (.mismatch type)

/-- Configs are filed under the types of their values. -/
theorem get_eq (s : Configs) (type : TypeInfo) : s.get type = .ok (s.find? type) := by
  unfold get
  split
  · next hnone => rw [hnone]
  · next config hfind =>
    have htype : config.type = type := by simpa using List.find?_some hfind
    rw [if_pos ((Value.type_config config).trans htype), hfind]

/-- Takes a config in, unless there is one of its type. -/
def add (s : Configs) (config : Config) : Except ConfigError Configs :=
  match s.find? config.type with
  | some _ => .error (.duplicate config.type)
  | none => .ok ⟨s.entries ++ [config]⟩

/-- Takes a config in, if there is one to take. -/
def maybeAdd (s : Configs) : Option Config → Except ConfigError Configs
  | some config => s.add config
  | none => .ok s

/-- The binding that offers the set, as the value of the given number. -/
def binding (s : Configs) (id : Nat) : Binding := .ofValue .configs (.configs id s.entries)

end Configs

end Injection
