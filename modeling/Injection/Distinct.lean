/-!
Lists with every element once, at the place where it first stood.
-/

namespace Injection

variable {α : Type} [DecidableEq α]

/-- The list without the repetitions of its elements. -/
def distinct : List α → List α
  | [] => []
  | a :: as => a :: (distinct as).filter (· ≠ a)

@[simp] theorem mem_distinct {a : α} {as : List α} : a ∈ distinct as ↔ a ∈ as := by
  induction as with
  | nil => rfl
  | cons b bs ih => by_cases h : a = b <;> simp [distinct, h, ih]

theorem nodup_distinct (as : List α) : (distinct as).Nodup := by
  induction as with
  | nil => exact List.nodup_nil
  | cons b bs ih =>
    rw [distinct, List.nodup_cons]
    exact ⟨by simp, List.Pairwise.filter _ ih⟩

end Injection
