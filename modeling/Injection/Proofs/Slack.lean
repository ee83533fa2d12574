import Injection.Proofs.Consistency
import Injection.Proofs.Registering
import Injection.Builder
import Mathlib.Algebra.GroupWithZero.Nat
import Mathlib.Algebra.Order.BigOperators.Group.List
import Mathlib.Algebra.Order.Group.Nat

/-!
How deep constructions can still nest. What is not under construction yet, of the bindings of a container and of its
ancestors, is what requests at the container can go into at most; and with each binding counts all that its recipe could
build below. Going into a binding takes its weight away, for the recipe to spend on containers of its own.
-/

namespace Injection

/-! ### Weights -/

def Registry.weight (r : Registry) : Nat := (r.bindings.map BindingOf.weight).sum

namespace Registry

variable {r r' : Registry} {b : Binding}

theorem weight_replace (h : r.keys.Nodup) (b : Binding) : (r.replace b).weight ≤ r.weight + b.weight := by
  obtain ⟨bindings⟩ := r
  induction bindings with
  | nil => exact Nat.zero_le _
  | cons c bindings ih =>
      obtain ⟨hnew, hrest⟩ := List.nodup_cons.1 h
      simp only [weight, replace, List.map_cons, List.sum_cons] at ih ⊢
      by_cases hkey : c.key = b.key
      · -- no other binding has the key, so nothing else is replaced
        have hsame : bindings.map (fun c => if c.key = b.key then b else c) = bindings := by
          refine (List.map_congr_left fun d hd => if_neg fun heq => hnew ?_).trans (List.map_id _)
          exact List.mem_map.2 ⟨d, hd, heq.trans hkey.symm⟩
        rw [hsame, if_pos hkey]
        omega
      · rw [if_neg hkey]
        have := ih hrest
        omega

theorem weight_register (h : r.keys.Nodup) (hregister : r.register b = .ok r') : r'.weight ≤ r.weight + b.weight := by
  unfold register at hregister
  split at hregister
  · split at hregister
    · cases hregister
    · obtain rfl := Except.ok.inj hregister
      exact weight_replace h b
    · obtain rfl := Except.ok.inj hregister
      exact Nat.le_add_right _ _
  · obtain rfl := Except.ok.inj hregister
    simp [weight]

end Registry

theorem BindingOf.weight_realize (draft : Draft) (serial : Nat) : (draft.realize serial).weight = draft.weight := by
  obtain ⟨k, _ | r, dependencies, policy, isScoped⟩ := draft <;> rfl

theorem Drafts.weight_cons (draft : Draft) (drafts : List Draft) :
    Drafts.weight (draft :: drafts) = draft.weight + Drafts.weight drafts := by
  obtain ⟨k, _ | ⟨makes, tag, steps, handsOn⟩, dependencies, policy, isScoped⟩ := draft <;>
    simp [Drafts.weight, BindingOf.weight]

namespace Container

theorem ownWeight_eq (c : Container) : c.ownWeight = c.registry.weight := by
  unfold ownWeight Registry.weight
  induction c.registry.bindings with
  | nil => rfl
  | cons b bs ih => simp [ih]

theorem weight_eq (c : Container) : c.weight = ((lineage [c]).map ownWeight).sum := by
  unfold weight
  induction lineage [c] with
  | nil => rfl
  | cons d ds ih => simp [ih]

/-! ### Slack -/

/-- The weight of the own bindings that are not under construction. -/
def ownSlack (building : List Address) (c : Container) : Nat :=
  ((c.registry.bindings.filter (c.place · ∉ building)).map BindingOf.weight).sum

/-- The weight of all bindings of a container and of its ancestors that are not under construction. -/
def slack (building : List Address) (c : Container) : Nat := ((lineage [c]).map (ownSlack building)).sum

variable {P : Container → Prop} {building : List Address} {c a o d p : Container} {b : Binding}

theorem ownSlack_le (building : List Address) (c : Container) : ownSlack building c ≤ c.ownWeight := by
  rw [ownWeight_eq]
  exact (List.filter_sublist.map _).sum_le_sum fun _ _ => Nat.zero_le _

theorem slack_le (building : List Address) (c : Container) : slack building c ≤ c.weight := by
  rw [weight_eq]
  exact List.sum_le_sum fun d _ => ownSlack_le building d

theorem subperm_lineage (h : Family P) (hc : P c) (hreaches : c.Reaches a) :
    (lineage [a]).Subperm (lineage [c]) := by
  refine List.subperm_of_subset (nodup_lineage [a]).of_map fun d hd => ?_
  obtain ⟨e, he, hrest⟩ := reaches_of_mem_lineage hd
  obtain rfl := List.mem_singleton.1 he
  exact mem_lineage_of_reaches h hc (hreaches.trans hrest)

/-- An ancestor has no more slack. -/
theorem slack_le_of_reaches (h : Family P) (hc : P c) (hreaches : c.Reaches a) :
    slack building a ≤ slack building c := by
  obtain ⟨ds, hperm, hsublist⟩ := subperm_lineage h hc hreaches
  rw [slack, ← (hperm.map _).sum_nat]
  exact (hsublist.map _).sum_le_sum fun _ _ => Nat.zero_le _

/-- A container below a parent has the slack of the parent and at most its own weight besides. -/
theorem slack_le_of_parents (building : List Address) (h : Family P) (hd : P d) (hparents : d.parents = [p]) :
    slack building d ≤ d.ownWeight + slack building p := by
  have hp : P p := h.parents d p hd (by simp [hparents])
  have hsubset : lineage [d] ⊆ d :: lineage [p] := by
    intro a ha
    obtain ⟨e, he, hreaches⟩ := reaches_of_mem_lineage ha
    obtain rfl := List.mem_singleton.1 he
    cases hreaches with
    | refl => exact List.mem_cons_self
    | up hparent hrest =>
        rw [hparents, List.mem_singleton] at hparent
        subst hparent
        exact List.mem_cons_of_mem _ (mem_lineage_of_reaches h hp hrest)
  obtain ⟨ds, hperm, hsublist⟩ := List.subperm_of_subset (nodup_lineage [d]).of_map hsubset
  have hsum := (hsublist.map (ownSlack building)).sum_le_sum fun _ _ => Nat.zero_le _
  rw [(hperm.map _).sum_nat, List.map_cons, List.sum_cons] at hsum
  exact hsum.trans (Nat.add_le_add_right (ownSlack_le building d) _)

theorem sum_filter_le {α : Type} (weight : α → Nat) {keeps keeps' : α → Bool} (as : List α)
    (hless : ∀ x, keeps' x = true → keeps x = true) :
    ((as.filter keeps').map weight).sum ≤ ((as.filter keeps).map weight).sum :=
  ((List.monotone_filter_right as hless).map weight).sum_le_sum fun _ _ => Nat.zero_le _

theorem sum_filter_add_le {α : Type} {weight : α → Nat} {keeps keeps' : α → Bool} {as : List α} {a : α} (ha : a ∈ as)
    (hless : ∀ x, keeps' x = true → keeps x = true) (hkeeps : keeps a = true) (hdrops : keeps' a = false) :
    ((as.filter keeps').map weight).sum + weight a ≤ ((as.filter keeps).map weight).sum := by
  induction as with
  | nil => cases ha
  | cons x as ih =>
      rcases List.mem_cons.1 ha with rfl | ha
      · have hrest := sum_filter_le weight as hless
        simp only [List.filter_cons, hkeeps, hdrops, if_true, Bool.false_eq_true, if_false, List.map_cons,
          List.sum_cons]
        omega
      · have hrest := ih ha
        rcases hx' : keeps' x with _ | _
        · rcases hx : keeps x with _ | _ <;>
            simp only [List.filter_cons, hx, hx', if_true, Bool.false_eq_true, if_false, List.map_cons,
              List.sum_cons] <;>
            omega
        · simp only [List.filter_cons, hless x hx', hx', if_true, List.map_cons, List.sum_cons]
          omega

theorem sum_map_add_le {α : Type} {f g : α → Nat} {as : List α} {a : α} {n : Nat} (ha : a ∈ as) (hle : ∀ x, f x ≤ g x)
    (hless : f a + n ≤ g a) : (as.map f).sum + n ≤ (as.map g).sum := by
  induction as with
  | nil => cases ha
  | cons x as ih =>
      simp only [List.map_cons, List.sum_cons]
      rcases List.mem_cons.1 ha with rfl | ha
      · have := List.sum_le_sum (l := as) fun x _ => hle x
        omega
      · have := ih ha
        have := hle x
        omega

/-- Going into a binding takes its weight away. -/
theorem slack_enter (h : Family P) (ho : P o) (hb : b ∈ o.registry.bindings) (hplace : o.place b ∉ building) :
    slack (building ++ [o.place b]) o + b.weight ≤ slack building o := by
  have hless (d : Container) (c : Binding) (hc : decide (d.place c ∉ building ++ [o.place b]) = true) :
      decide (d.place c ∉ building) = true := by
    simp only [List.mem_append, not_or, decide_eq_true_eq] at hc ⊢
    exact hc.1
  refine sum_map_add_le (mem_lineage_of_reaches h ho (.refl o)) (fun d => sum_filter_le _ _ (hless d)) ?_
  exact sum_filter_add_le hb (hless o) (by simpa using hplace) (by simp)

end Container

end Injection
