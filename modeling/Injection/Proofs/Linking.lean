import Injection.Graph.Link
import Injection.Proofs.Walk

/-!
What linking promises. In a container that was linked, a key is in sight exactly if some binding answers for it; that
binding is an own binding of the container or of one of its ancestors, and a parent that is named as the origin of a key
is there and has the same owner for it. No own binding needs itself, and all that one needs is in sight or may be
missing.
-/

namespace Injection

/-! ### Containers and their ancestors -/

namespace Container

theorem sizeOf_lt_of_mem_parents {c p : Container} (hp : p ∈ c.parents) : sizeOf p < sizeOf c := by
  have hparents := List.sizeOf_lt_of_mem hp
  obtain ⟨id, label, registry, parents, graph⟩ := c
  simp only [Container.mk.sizeOf_spec] at hparents ⊢
  omega

/-- What holds of a container if it holds of its parents holds of every container. -/
theorem induction {P : Container → Prop} (h : ∀ c, (∀ p ∈ c.parents, P p) → P c) (c : Container) : P c := by
  induction hsize : sizeOf c using Nat.strongRecOn generalizing c with
  | _ n ih => exact h c fun p hp => ih (sizeOf p) (hsize ▸ sizeOf_lt_of_mem_parents hp) p rfl

/-- Going from a container to parents, and to their parents in turn, one comes to the other container. -/
inductive Reaches : Container → Container → Prop
  | refl (c : Container) : Reaches c c
  | up {c p a : Container} (parent : p ∈ c.parents) (rest : Reaches p a) : Reaches c a

theorem Reaches.trans {c d a : Container} (h : c.Reaches d) (h' : d.Reaches a) : c.Reaches a := by
  induction h with
  | refl => exact h'
  | up hparent _ ih => exact .up hparent (ih h')

theorem Reaches.sizeOf_le {c a : Container} (h : c.Reaches a) : sizeOf a ≤ sizeOf c := by
  induction h with
  | refl => exact Nat.le_refl _
  | up hparent _ ih => exact Nat.le_trans ih (Nat.le_of_lt (sizeOf_lt_of_mem_parents hparent))

theorem reaches_of_ancestor? {path : List Nat} {c a : Container} (h : c.ancestor? path = some a) : c.Reaches a := by
  induction path generalizing c with
  | nil => exact Option.some.inj h ▸ .refl c
  | cons i path ih =>
      obtain ⟨p, hp, hrest⟩ := Option.bind_eq_some_iff.1 h
      exact .up (List.mem_of_getElem? hp) (ih hrest)

/-- The owner of a key, by the origin of the key. -/
theorem owner?_eq (c : Container) (k : Key) :
    c.owner? k =
      match c.graph.origin? k with
      | none => none
      | some .own => (c.registry.lookup k).map fun b => (c, b)
      | some (.parent index) => (c.parents[index]?).bind (·.owner? k) := by
  obtain ⟨id, label, registry, parents, graph⟩ := c
  rw [owner?]
  split
  · next h => simp only [h]
  · next h => simp only [h]
  · next h => simp only [h, ownerAmong?_eq]

/-- The owner of a key is the container or an ancestor, and has the binding that answers for the key as its own. -/
theorem owner?_spec {c o : Container} {k : Key} {b : Binding} (h : c.owner? k = some (o, b)) :
    c.Reaches o ∧ o.registry.lookup k = some b := by
  induction c using Container.induction with
  | _ c ih =>
      rw [owner?_eq] at h
      split at h
      · cases h
      · obtain ⟨b', hlookup, heq⟩ := Option.map_eq_some_iff.1 h
        obtain ⟨rfl, rfl⟩ := Prod.mk.inj heq
        exact ⟨.refl c, hlookup⟩
      · next index _ =>
        obtain ⟨p, hp, howner⟩ := Option.bind_eq_some_iff.1 h
        obtain ⟨hreaches, hlookup⟩ := ih p (List.mem_of_getElem? hp) howner
        exact ⟨.up (List.mem_of_getElem? hp) hreaches, hlookup⟩

theorem key_of_owner? {c o : Container} {k : Key} {b : Binding} (h : c.owner? k = some (o, b)) : b.key = k :=
  Registry.key_of_lookup (owner?_spec h).2

theorem contains_of_owner? {c : Container} {k : Key} (h : (c.owner? k).isSome) : c.graph.contains k = true := by
  rw [owner?_eq] at h
  unfold Graph.contains
  split at h <;> simp_all

theorem owner?_eq_none {c : Container} {k : Key} (h : c.graph.contains k = false) : c.owner? k = none := by
  refine Option.not_isSome_iff_eq_none.1 fun hsome => ?_
  rw [contains_of_owner? hsome] at h
  cases h

end Container

/-! ### Candidates -/

namespace Graph

/-- Every owner that is found is the owner that a parent of that number has, and stands as its binding does. -/
theorem mem_candidatesFrom {k : Key} {parents : List Container} {index : Nat} {found : List Candidate}
    {cand : Candidate} (h : cand ∈ candidatesFrom k index parents found) :
    cand ∈ found ∨ ∃ offset p b, cand.parent = index + offset ∧ parents[offset]? = some p ∧
      p.owner? k = some (cand.owner, b) ∧ b.policy = cand.policy := by
  induction parents generalizing index found with
  | nil => exact Or.inl h
  | cons p ps ih =>
      rw [candidatesFrom] at h
      rcases ih h with h | ⟨offset, q, b, hparent, hq, howner⟩
      · split at h
        · exact Or.inl h
        · next owner b howner =>
          split at h
          · exact Or.inl h
          · rcases List.mem_append.1 h with h | h
            · exact Or.inl h
            · obtain rfl := List.mem_singleton.1 h
              exact Or.inr ⟨0, p, b, rfl, rfl, howner, rfl⟩
      · exact Or.inr ⟨offset + 1, q, b, by omega, by simpa using hq, howner⟩

theorem parent_of_mem_candidates {parents : List Container} {k : Key} {cand : Candidate}
    (h : cand ∈ candidates parents k) :
    ∃ p b, parents[cand.parent]? = some p ∧ p.owner? k = some (cand.owner, b) ∧ b.policy = cand.policy := by
  rcases mem_candidatesFrom h with h | ⟨offset, p, b, hparent, hp, howner⟩
  · cases h
  · exact ⟨p, b, by rwa [hparent, Nat.zero_add], howner⟩

theorem mem_of_only {α : Type} {as : List α} {a : α} (h : only as = some a) : a ∈ as := by
  match as, h with
  | [_], h => exact List.mem_singleton.2 (Option.some.inj h).symm

theorem mem_of_winner {cs : List Candidate} {cand : Candidate} (h : winner cs = some cand) : cand ∈ cs := by
  simp only [winner, Option.orElse_eq_orElse, Option.orElse_eq_or, Option.or_eq_some_iff] at h
  rcases h with h | ⟨-, h | ⟨-, h⟩⟩
  · exact mem_of_only h
  · exact (List.mem_filter.1 (mem_of_only h)).1
  · exact (List.mem_filter.1 (mem_of_only h)).1

/-! ### Assembled graphs -/

theorem lookup_own (registry : Registry) (k : Key) :
    (registry.bindings.map fun b => (b.key, Origin.own)).lookup k =
      (registry.lookup k).map fun _ => Origin.own := by
  obtain ⟨bindings⟩ := registry
  induction bindings with
  | nil => rfl
  | cons b bs ih =>
      simp only [Registry.lookup, List.map_cons, List.lookup_cons, List.find?_cons] at ih ⊢
      by_cases hk : b.key = k
      · simp [hk]
      · simp [hk, beq_eq_false_iff_ne.2 (Ne.symm hk), ih]

theorem origin?_assemble (registry : Registry) (brought : List (Key × List Candidate)) (k : Key) :
    (assemble registry brought).origin? k =
      ((registry.lookup k).map fun _ => Origin.own).or ((inheritedOrigins brought).lookup k) := by
  unfold origin? assemble
  rw [List.lookup_append, lookup_own]

theorem own?_assemble (registry : Registry) (brought : List (Key × List Candidate)) (k : Key) :
    (assemble registry brought).own? k =
      (registry.lookup k).map fun b => ⟨b.key, b.dependencies, b.isScoped⟩ := by
  rw [own?, assemble, Registry.lookup, List.find?_map]
  rfl

/-- An origin that was inherited is a parent which has an owner for the key. -/
theorem origin_of_lookup_inherited {registry : Registry} {parents : List Container} {k : Key} {origin : Origin}
    (h : (inheritedOrigins (inherited registry parents)).lookup k = some origin) :
    ∃ index p o b, origin = .parent index ∧ parents[index]? = some p ∧ p.owner? k = some (o, b) := by
  obtain ⟨before, after, hsplit, -⟩ := List.lookup_eq_some_iff.1 h
  have hmem : (k, origin) ∈ inheritedOrigins (inherited registry parents) := by
    rw [hsplit]
    exact List.mem_append_right _ List.mem_cons_self
  obtain ⟨⟨k', cs⟩, hbrought, hwinner⟩ := List.mem_filterMap.1 hmem
  obtain ⟨cand, hcand, heq⟩ := Option.map_eq_some_iff.1 hwinner
  obtain ⟨rfl, rfl⟩ := Prod.mk.inj heq
  obtain ⟨k'', -, heq⟩ := List.mem_map.1 hbrought
  obtain ⟨rfl, rfl⟩ := Prod.mk.inj heq
  obtain ⟨p, b, hp, howner, -⟩ := parent_of_mem_candidates (mem_of_winner hcand)
  exact ⟨cand.parent, p, cand.owner, b, rfl, hp, howner⟩

/-- A graph that links has no conflicts and no problems. -/
theorem link_eq_ok {registry : Registry} {parents : List Container} {g : Graph} (h : link registry parents = .ok g) :
    g = assemble registry (inherited registry parents) ∧ g.conflicted = [] ∧ g.problems = [] := by
  simp only [link] at h
  split at h
  · next hfaults =>
    obtain rfl := Except.ok.inj h
    obtain ⟨hconflicts, hproblems⟩ := List.append_eq_nil_iff.1 hfaults
    have hcontested := List.map_eq_nil_iff.1 (Text.sortOn_eq_nil.1 hconflicts)
    exact ⟨rfl, List.map_eq_nil_iff.2 hcontested, hproblems⟩
  · cases h

end Graph

/-! ### Linked containers -/

namespace Container

/-- The container's graph comes from linking its registry below its parents. -/
def Linked (c : Container) : Prop := Graph.link c.registry c.parents = .ok c.graph

namespace Linked

variable {c : Container}

theorem own? (h : c.Linked) (k : Key) :
    c.graph.own? k = (c.registry.lookup k).map fun b => ⟨b.key, b.dependencies, b.isScoped⟩ := by
  rw [(Graph.link_eq_ok h).1, Graph.own?_assemble]

theorem own?_of_lookup (h : c.Linked) {k : Key} {b : Binding} (hlookup : c.registry.lookup k = some b) :
    c.graph.own? k = some ⟨b.key, b.dependencies, b.isScoped⟩ := by
  rw [h.own?, hlookup, Option.map_some]

/-- A key in sight is an own key, or a parent has an owner for it. -/
theorem origin? (h : c.Linked) {k : Key} {origin : Origin} (horigin : c.graph.origin? k = some origin) :
    (origin = .own ∧ ∃ b, c.registry.lookup k = some b) ∨
      ∃ index p o b, origin = .parent index ∧ c.parents[index]? = some p ∧ p.owner? k = some (o, b) := by
  rw [(Graph.link_eq_ok h).1, Graph.origin?_assemble] at horigin
  rcases hlookup : c.registry.lookup k with _ | b
  · simp only [hlookup, Option.map_none, Option.none_or] at horigin
    exact Or.inr (Graph.origin_of_lookup_inherited horigin)
  · simp only [hlookup, Option.map_some, Option.some_or, Option.some.injEq] at horigin
    exact Or.inl ⟨horigin.symm, b, rfl⟩

/-- A key in sight has an owner. -/
theorem owner?_isSome (h : c.Linked) {k : Key} (hsight : c.graph.contains k = true) : ∃ o b, c.owner? k = some (o, b) := by
  obtain ⟨origin, horigin⟩ := Option.isSome_iff_exists.1 hsight
  rw [owner?_eq]
  rcases h.origin? horigin with ⟨rfl, b, hlookup⟩ | ⟨index, p, o, b, rfl, hp, howner⟩
  · exact ⟨c, b, by simp [horigin, hlookup]⟩
  · exact ⟨o, b, by simp [horigin, hp, howner]⟩

/-- An own binding answers for its key. -/
theorem owner?_own (h : c.Linked) {k : Key} {b : Binding} (hlookup : c.registry.lookup k = some b) :
    c.owner? k = some (c, b) := by
  have horigin : c.graph.origin? k = some .own := by
    rw [(Graph.link_eq_ok h).1, Graph.origin?_assemble, hlookup]
    rfl
  rw [owner?_eq, horigin]
  simp [hlookup]

/-- The owner of a key that is not an own one is an ancestor. -/
theorem reaches_of_owner? (h : c.Linked) {k : Key} {o : Container} {b : Binding} (howner : c.owner? k = some (o, b)) :
    (o = c ∧ c.registry.lookup k = some b) ∨ ∃ p ∈ c.parents, p.Reaches o := by
  rcases hlookup : c.registry.lookup k with _ | b'
  · have hsight : c.graph.contains k = true := contains_of_owner? (by simp [howner])
    obtain ⟨origin, horigin⟩ := Option.isSome_iff_exists.1 hsight
    rcases h.origin? horigin with ⟨-, b', hown⟩ | ⟨index, p, o', b', rfl, hp, howner'⟩
    · rw [hlookup] at hown
      cases hown
    · rw [owner?_eq] at howner
      simp only [horigin, hp, howner', Option.bind_some, Option.some.injEq, Prod.mk.injEq] at howner
      obtain ⟨rfl, rfl⟩ := howner
      exact Or.inr ⟨p, List.mem_of_getElem? hp, (owner?_spec howner').1⟩
  · rw [h.owner?_own hlookup] at howner
    obtain ⟨rfl, rfl⟩ := Prod.mk.inj (Option.some.inj howner)
    exact Or.inl ⟨rfl, rfl⟩

/-- What an own binding needs is in sight, unless it may be missing. -/
theorem in_sight (h : c.Linked) {k : Key} {b : Binding} (hlookup : c.registry.lookup k = some b) {d : Dependency}
    (hd : d ∈ b.dependencies) : c.graph.contains d.key = true ∨ d.isOptional = true := by
  obtain ⟨-, hconflicted, hproblems⟩ := Graph.link_eq_ok h
  rcases Graph.in_sight_of_problems_eq_nil hproblems (h.own?_of_lookup hlookup) hd with hsight | hoptional | hconflict
  · exact Or.inl hsight
  · exact Or.inr hoptional
  · rw [hconflicted] at hconflict
    cases hconflict

theorem not_circular (h : c.Linked) (k : Key) : ¬ Relation.TransGen c.graph.Needs k k :=
  Graph.not_circular_of_problems_eq_nil (Graph.link_eq_ok h).2.2 k

end Linked

/-- The container and all its ancestors were linked. -/
def Rooted (c : Container) : Prop := ∀ a, c.Reaches a → a.Linked

theorem Rooted.linked {c : Container} (h : c.Rooted) : c.Linked := h c (.refl c)

theorem Rooted.of_reaches {c a : Container} (h : c.Rooted) (hreaches : c.Reaches a) : a.Rooted :=
  fun d hd => h d (hreaches.trans hd)

theorem Rooted.parent {c p : Container} (h : c.Rooted) (hp : p ∈ c.parents) : p.Rooted :=
  h.of_reaches (.up hp (.refl p))

end Container

end Injection
