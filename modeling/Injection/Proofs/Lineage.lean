import Injection.Proofs.Linking
import Injection.Store

/-!
Containers in a lineage. As long as two containers with one number are one and the same, a lineage has all ancestors of
its containers. So the weight of a container is at least the number of the places that itself and its ancestors keep for
their own bindings.
-/

namespace Injection

namespace Container

/-- A set of containers that has all parents of its containers and never two of one number. -/
structure Family (P : Container → Prop) : Prop where
  parents : ∀ c p, P c → p ∈ c.parents → P p
  unique : ∀ c d, P c → P d → c.id = d.id → c = d

variable {P : Container → Prop}

theorem Family.of_reaches (h : Family P) {c a : Container} (hc : P c) (hreaches : c.Reaches a) : P a := by
  induction hreaches with
  | refl => exact hc
  | up hparent _ ih => exact ih (h.parents _ _ hc hparent)

/-- Those who are met anew bring their parents. -/
structure Closed (P : Container → Prop) (met after : List Container) : Prop where
  family : ∀ c ∈ after, P c
  old : ∀ c ∈ met, c ∈ after
  parents : ∀ c ∈ after, c ∉ met → ∀ p ∈ c.parents, p ∈ after

theorem Closed.refl {met : List Container} (h : ∀ c ∈ met, P c) : Closed P met met where
  family := h
  old _ hc := hc
  parents _ hc hnew := absurd hc hnew

theorem Closed.trans {met after last : List Container} (h : Closed P met after) (h' : Closed P after last) :
    Closed P met last where
  family := h'.family
  old c hc := h'.old c (h.old c hc)
  parents c hc hnew p hp := by
    by_cases hmem : c ∈ after
    · exact h'.old p (h.parents c hmem hnew p hp)
    · exact h'.parents c hc hmem p hp

theorem closed_meetAll (h : Family P) (cs met : List Container) (hcs : ∀ c ∈ cs, P c) (hmet : ∀ c ∈ met, P c) :
    (∀ c ∈ cs, c ∈ meetAll cs met) ∧ Closed P met (meetAll cs met) := by
  refine (meet.mutual_induct
    (fun c met => P c → (∀ c ∈ met, P c) → c ∈ c.meet met ∧ Closed P met (c.meet met))
    (fun cs met => (∀ c ∈ cs, P c) → (∀ c ∈ met, P c) → (∀ c ∈ cs, c ∈ meetAll cs met) ∧ Closed P met (meetAll cs met))
    ?old ?new ?none ?more).2 cs met hcs hmet
  case old =>
    intro id label registry parents graph met old hc hmet
    rw [meet, if_pos old]
    obtain ⟨d, hd, hid⟩ := List.any_eq_true.1 old
    have heq := h.unique d _ (hmet d hd) hc (beq_iff_eq.1 hid)
    exact ⟨heq ▸ hd, .refl hmet⟩
  case new =>
    intro id label registry parents graph met new ih hc hmet
    rw [meet, if_neg new]
    have hmet' : ∀ d ∈ ⟨id, label, registry, parents, graph⟩ :: met, P d := List.forall_mem_cons.2 ⟨hc, hmet⟩
    obtain ⟨hparents, hfamily, hold, hnew⟩ := ih (fun p hp => h.parents _ p hc hp) hmet'
    refine ⟨hold _ List.mem_cons_self, hfamily, fun d hd => hold d (List.mem_cons_of_mem _ hd), ?_⟩
    intro d hd hnotmet p hp
    by_cases heq : d = ⟨id, label, registry, parents, graph⟩
    · subst heq
      exact hparents p hp
    · exact hnew d hd (by simp [heq, hnotmet]) p hp
  case none =>
    intro met _ hmet
    exact ⟨by simp, .refl hmet⟩
  case more =>
    intro c cs met first rest hcs hmet
    obtain ⟨hmem, hclosed⟩ := first (hcs c List.mem_cons_self) hmet
    obtain ⟨hall, hclosed'⟩ := rest (fun d hd => hcs d (List.mem_cons_of_mem c hd)) hclosed.family
    refine ⟨?_, hclosed.trans hclosed'⟩
    intro d hd
    rcases List.mem_cons.1 hd with rfl | hd
    · exact hclosed'.old d hmem
    · exact hall d hd

/-- All ancestors of containers stand in their lineage. -/
theorem mem_lineage (h : Family P) {cs : List Container} (hcs : ∀ c ∈ cs, P c) {c a : Container} (hc : c ∈ cs)
    (hreaches : c.Reaches a) : a ∈ lineage cs := by
  obtain ⟨hall, hclosed⟩ := closed_meetAll h cs [] hcs (by simp)
  have hstep {d a : Container} (hreaches : d.Reaches a) (hd : d ∈ lineage cs) : a ∈ lineage cs := by
    induction hreaches with
    | refl => exact hd
    | up hparent _ ih => exact ih (hclosed.parents _ hd List.not_mem_nil _ hparent)
  exact hstep hreaches (hall c hc)

theorem mem_lineage_of_reaches (h : Family P) {c a : Container} (hc : P c) (hreaches : c.Reaches a) :
    a ∈ lineage [c] :=
  mem_lineage h (by simpa using hc) List.mem_cons_self hreaches

/-- Nothing but ancestors stands in a lineage. -/
theorem reaches_of_mem_lineage {cs : List Container} {a : Container} (ha : a ∈ lineage cs) :
    ∃ c ∈ cs, c.Reaches a := by
  suffices ∀ met, a ∈ meetAll cs met → a ∈ met ∨ ∃ c ∈ cs, c.Reaches a from
    (this [] ha).resolve_left List.not_mem_nil
  intro met
  refine (meet.mutual_induct (fun c met => a ∈ c.meet met → a ∈ met ∨ c.Reaches a)
    (fun cs met => a ∈ meetAll cs met → a ∈ met ∨ ∃ c ∈ cs, c.Reaches a) ?old ?new ?none ?more).2 cs met
  case old =>
    intro id label registry parents graph met old ha
    rw [meet, if_pos old] at ha
    exact .inl ha
  case new =>
    intro id label registry parents graph met new ih ha
    rw [meet, if_neg new] at ha
    rcases ih ha with ha | ⟨p, hp, hreaches⟩
    · exact (List.mem_cons.1 ha).elim (fun heq => heq ▸ .inr (.refl _)) .inl
    · exact .inr (.up hp hreaches)
  case none => exact fun met ha => .inl ha
  case more =>
    intro c cs met first rest ha
    rcases rest ha with ha | ⟨d, hd, hreaches⟩
    · exact (first ha).imp_right fun hreaches => ⟨c, List.mem_cons_self, hreaches⟩
    · exact .inr ⟨d, List.mem_cons_of_mem c hd, hreaches⟩

/-- The places that containers keep for their own bindings. -/
def places (cs : List Container) : List Address := cs.flatMap fun c => c.registry.bindings.map c.place

theorem one_le_weight {given : Type} (b : BindingOf given Step) : 1 ≤ b.weight := by
  unfold BindingOf.weight
  split <;> omega

theorem length_le_ownWeight (c : Container) : c.registry.bindings.length ≤ c.ownWeight := by
  unfold ownWeight
  induction c.registry.bindings with
  | nil => exact Nat.le_refl _
  | cons b bs ih =>
      have hb := one_le_weight b
      simp only [List.length_cons, List.foldr_cons]
      omega

/-- A container weighs at least as much as there are places in its lineage. -/
theorem length_places_le_weight (c : Container) : (places (lineage [c])).length ≤ c.weight := by
  unfold places weight
  induction lineage [c] with
  | nil => exact Nat.le_refl _
  | cons d ds ih =>
      have hd := length_le_ownWeight d
      simp only [List.flatMap_cons, List.length_append, List.length_map, List.foldr_cons]
      omega

theorem mem_places (h : Family P) {cs : List Container} (hcs : ∀ c ∈ cs, P c) {c a : Container} (hc : c ∈ cs)
    (hreaches : c.Reaches a) {b : Binding} (hb : b ∈ a.registry.bindings) : a.place b ∈ places (lineage cs) :=
  List.mem_flatMap.2 ⟨a, mem_lineage h hcs hc hreaches, List.mem_map_of_mem hb⟩

theorem place_mem_places (h : Family P) {c a : Container} (hc : P c) (hreaches : c.Reaches a) {b : Binding}
    (hb : b ∈ a.registry.bindings) : a.place b ∈ places (lineage [c]) :=
  mem_places h (by simpa using hc) List.mem_cons_self hreaches hb

end Container

end Injection
