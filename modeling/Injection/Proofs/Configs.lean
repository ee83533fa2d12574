import Injection.Configs
import Mathlib.Data.List.Find
import Mathlib.Data.List.ReduceOption

/-!
What a set of configs holds. Configs are offered to a set one after another, some of them perhaps not there. Of each type
the first one stays, and later ones are refused and change nothing; types with one name are different types nevertheless.
What is taken out of the set is always of the type that is asked for.
-/

namespace Injection

namespace Configs

/-- The set after a config was offered to it. -/
def take (s : Configs) (offer : Option Config) : Configs :=
  match s.maybeAdd offer with
  | .ok taken => taken
  | .error _ => s

def takeAll (s : Configs) (offers : List (Option Config)) : Configs := offers.foldl take s

/-- The config of a type that was offered first. -/
def first? (offers : List (Option Config)) (type : TypeInfo) : Option Config :=
  offers.reduceOption.find? (·.type = type)

/-- A set holds what was offered to it first. -/
structure HoldsFirst (offers : List (Option Config)) (s : Configs) : Prop where
  /-- What a set gives out is the first config of the type, if one was offered; that is never a mismatch. -/
  get : ∀ type, s.get type = .ok (first? offers type)
  /-- Another config is refused exactly if there is one of its type, -/
  refused : ∀ config e, s.add config = .error e ↔ (first? offers config.type).isSome ∧ e = .duplicate config.type
  /-- and then the set is as it was. -/
  unchanged : ∀ config e, s.add config = .error e → s.take (some config) = s
  /-- Whatever its name, a config of another type makes no difference to what is there of a type, -/
  apart : ∀ config type, config.type ≠ type → (s.take (some config)).get type = s.get type
  /-- nor does what is not there make any. -/
  nothing : s.maybeAdd none = .ok s

variable {s : Configs} {offers : List (Option Config)}

/-- In one program, a config can be found by the number of its type. -/
theorem find?_eq_find?_id {table : TypeTable} {type : TypeInfo} (hs : ∀ config ∈ s.entries, config.type ∈ table.types)
    (htype : type ∈ table.types) : s.find? type = s.entries.find? (·.type.id == type.id) := by
  rw [find?]
  apply List.find?_congr
  intro config hconfig
  rw [Bool.eq_iff_iff, decide_eq_true_iff, beq_iff_eq]
  exact TypeTable.eq_iff (hs config hconfig) htype

theorem add_of_some {config held : Config} (h : s.find? config.type = some held) :
    s.add config = .error (.duplicate config.type) := by
  rw [add, h]

theorem add_of_none {config : Config} (h : s.find? config.type = none) :
    s.add config = .ok ⟨s.entries ++ [config]⟩ := by
  rw [add, h]

theorem take_of_some {config held : Config} (h : s.find? config.type = some held) : s.take (some config) = s := by
  rw [take, maybeAdd, add_of_some h]

theorem take_of_none {config : Config} (h : s.find? config.type = none) :
    s.take (some config) = ⟨s.entries ++ [config]⟩ := by
  rw [take, maybeAdd, add_of_none h]

/-- What was found before is found still, and otherwise what was offered. -/
theorem find?_take (s : Configs) (offer : Option Config) (type : TypeInfo) :
    (s.take offer).find? type = (s.find? type).or (offer.filter (·.type = type)) := by
  rcases offer with _ | config
  · exact (Option.or_none ..).symm
  rcases hheld : s.find? config.type with _ | held
  · rw [take_of_none hheld, find?, List.find?_append, find?]
    by_cases htype : config.type = type <;> simp [Option.filter, htype]
  · rw [take_of_some hheld]
    by_cases htype : config.type = type
    · rw [← htype, hheld, Option.some_or]
    · simp [Option.filter, htype]

theorem first?_cons (offer : Option Config) (offers : List (Option Config)) (type : TypeInfo) :
    first? (offer :: offers) type = (offer.filter (·.type = type)).or (first? offers type) := by
  rcases offer with _ | config
  · rfl
  · by_cases htype : config.type = type <;> simp [first?, Option.filter, htype]

theorem find?_takeAll (s : Configs) (offers : List (Option Config)) (type : TypeInfo) :
    (s.takeAll offers).find? type = (s.find? type).or (first? offers type) := by
  induction offers generalizing s with
  | nil => exact (Option.or_none ..).symm
  | cons offer offers ih =>
      show ((s.take offer).takeAll offers).find? type = _
      rw [ih, find?_take, first?_cons, Option.or_assoc]

theorem holdsFirst_takeAll (offers : List (Option Config)) : HoldsFirst offers (empty.takeAll offers) := by
  have hfind (type : TypeInfo) : (empty.takeAll offers).find? type = first? offers type := find?_takeAll empty offers type
  constructor
  case get =>
    intro type
    rw [get_eq, hfind]
  case refused =>
    intro config e
    rw [← hfind]
    rcases hheld : (empty.takeAll offers).find? config.type with _ | held
    · simp [add_of_none hheld]
    · simp [add_of_some hheld, eq_comm]
  case unchanged =>
    intro config e h
    rw [take, maybeAdd, h]
  case apart =>
    intro config type htype
    rw [get_eq, get_eq, find?_take]
    simp [Option.filter, htype]
  case nothing => rfl

end Configs

end Injection
