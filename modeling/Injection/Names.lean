/-!
Things held by name, in the order the names first came up.
-/

namespace Injection

/-- Names and what they stand for; each name at most once. -/
structure Names (α : Type) where
  entries : List (String × α)

namespace Names

variable {α : Type}

def empty : Names α := ⟨[]⟩

def get? (n : Names α) (name : String) : Option α := n.entries.lookup name

def items (n : Names α) : List α := n.entries.map Prod.snd

def erase (n : Names α) (name : String) : Names α := ⟨n.entries.filter (·.1 ≠ name)⟩

/-- Gives a name to something, and with that lets go of what it stood for. -/
def set (n : Names α) (name : String) (a : α) : Names α := ⟨(n.erase name).entries ++ [(name, a)]⟩

def set? (n : Names α) (name : Option String) (a : α) : Names α :=
  match name with
  | some name => n.set name a
  | none => n

theorem get?_erase_self (n : Names α) (name : String) : (n.erase name).get? name = none := by
  refine List.lookup_eq_none_iff.2 fun entry member => ?_
  have other : entry.1 ≠ name := by simpa using (List.mem_filter.1 member).2
  exact bne_iff_ne.2 other.symm

theorem get?_set_self (n : Names α) (name : String) (a : α) : (n.set name a).get? name = some a := by
  have h : (n.erase name).entries.lookup name = none := get?_erase_self n name
  simp [get?, set, List.lookup_append, h]

end Names

end Injection
