import Injection.Text.Order

/-!
Types and keys. A binding is filed under a key: a type and, when several bindings of one type live side by side, a
qualifier. Types are told apart by number, since two of them may share a name; the name is only for reading. In one
program a number stands for one type, with its name and its shape, so it makes no difference that types are compared as
wholes where keys are looked up, values are checked for their type, and configs are searched. Wherever keys are put in
order, it is by their text.
-/

namespace Injection

/-- How a value of a type shows itself: its short type name around its number, the bare number, or quoted text. -/
inductive Shape
  | record (name : String)
  | number
  | text
  deriving DecidableEq, Repr

/-- A type that values may have. -/
structure TypeInfo where
  id : Nat
  name : String
  shape : Shape
  deriving DecidableEq, Repr

/-- The types of a program. The number of a type determines the rest of it. -/
structure TypeTable where
  types : List TypeInfo
  determined : ∀ a ∈ types, ∀ b ∈ types, a.id = b.id → a = b

theorem TypeTable.eq_iff {table : TypeTable} {a b : TypeInfo} (ha : a ∈ table.types) (hb : b ∈ table.types) :
    a = b ↔ a.id = b.id :=
  ⟨congrArg TypeInfo.id, table.determined a ha b hb⟩

/-- What a binding is filed under. The empty qualifier is a qualifier. -/
structure Key where
  type : TypeInfo
  qualifier : Option String
  deriving DecidableEq, Repr

namespace Key

def ofType (type : TypeInfo) : Key := ⟨type, none⟩

def named (k : Key) (qualifier : String) : Key := { k with qualifier := some qualifier }

def text (k : Key) : String :=
  match k.qualifier with
  | none => k.type.name
  | some q => k.type.name ++ "@" ++ q

def sort (ks : List Key) : List Key := Text.sortOn text ks

/-- Whether two keys have the same qualifier and types of the same number. -/
def sameAs (k l : Key) : Bool := k.type.id == l.type.id && k.qualifier == l.qualifier

theorem eq_iff_sameAs {table : TypeTable} {k l : Key} (hk : k.type ∈ table.types) (hl : l.type ∈ table.types) :
    k = l ↔ k.sameAs l = true := by
  obtain ⟨type, qualifier⟩ := k
  obtain ⟨type', qualifier'⟩ := l
  simp [sameAs, table.eq_iff hk hl]

end Key

/-- What a binding says it needs. -/
structure Dependency where
  key : Key
  isOptional : Bool
  isLazy : Bool
  deriving DecidableEq, Repr

namespace Dependency

/-- Needed, and needed at once. -/
def required (key : Key) : Dependency := ⟨key, false, false⟩

/-- The same need, which may stay unmet. -/
def optional (d : Dependency) : Dependency := { d with isOptional := true }

/-- Needed only once it is used. -/
def deferred (key : Key) : Dependency := ⟨key, false, true⟩

end Dependency

end Injection
