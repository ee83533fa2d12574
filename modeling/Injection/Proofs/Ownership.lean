import Injection.Builder
import Injection.Proofs.Lineage
import Injection.Proofs.Linking

/-!
Whose binding answers for a key. A container that was linked remembers for each key in sight the number of a parent. Who
owns the key can be said without that, from bindings and policies alone: a container itself if it binds the key, and
otherwise the one that prevails among those who own the key for its parents. In whatever order containers are built below
each other, what they remember leads to these owners.
-/

namespace Injection

namespace Container

/-! ### Owners by bindings and policies -/

/-- Containers each once, where they first stand; those with one number are the same. -/
def once (os : List Container) : List Container := os.eraseDupsBy fun o p => o.id == p.id

/-- How the own binding of a key stands against others. -/
def policy? (o : Container) (k : Key) : Option Policy := (o.registry.lookup k).map (·.policy)

/-- Of different containers that bind a key the one that prevails: the only one, the only one whose binding overrides, or
the only one whose binding does not give way. -/
def prevailing (k : Key) (os : List Container) : Option Container :=
  Graph.only os <|> Graph.only (os.filter (·.policy? k = some .override)) <|>
    Graph.only (os.filter (·.policy? k ≠ some .ignore))

mutual

/-- The container whose binding of a key is in effect. -/
def effective? : Container → Key → Option Container
  | ⟨id, label, registry, parents, graph⟩, k =>
    if registry.contains k then some ⟨id, label, registry, parents, graph⟩
    else prevailing k (once (effectiveAmong parents k))

/-- The containers whose bindings of a key are in effect for several others. -/
def effectiveAmong : List Container → Key → List Container
  | [], _ => []
  | p :: ps, k => (p.effective? k).toList ++ effectiveAmong ps k

end

/-- The containers that bring a key to one below parents: each that is in effect for a parent, in the parents' order. -/
def contenders (parents : List Container) (k : Key) : List Container := once (parents.filterMap (·.effective? k))

theorem effectiveAmong_eq (parents : List Container) (k : Key) :
    effectiveAmong parents k = parents.filterMap (·.effective? k) := by
  induction parents with
  | nil => rfl
  | cons p ps ih => rcases h : p.effective? k <;> simp [effectiveAmong, h, ih]

theorem effective?_eq (c : Container) (k : Key) :
    c.effective? k = if c.registry.contains k then some c else prevailing k (contenders c.parents k) := by
  obtain ⟨id, label, registry, parents, graph⟩ := c
  rw [effective?, effectiveAmong_eq, contenders]

/-- What a container says of a key is as bindings and policies have it. -/
structure Agrees (c : Container) (k : Key) : Prop where
  owner : ∀ o, c.effective? k = some o → ∃ b, o.registry.lookup k = some b ∧ c.owner? k = some (o, b) ∧
    c.lookup k = some b
  unowned : c.effective? k = none → c.owner? k = none ∧ c.lookup k = none
  contains : c.graph.contains k = (c.effective? k).isSome
  visible : k ∈ c.graph.visibleKeys ↔ (c.effective? k).isSome
  own : c.graph.origin? k = some .own ↔ c.effective? k = some c
  /-- The way that the origin shows leads to the same owner. -/
  parent : ∀ index, c.graph.origin? k = some (.parent index) →
    ∃ p o, c.parents[index]? = some p ∧ p.effective? k = some o ∧ c.effective? k = some o
  /-- What a parent has in sight is in sight. -/
  inherits : ∀ p ∈ c.parents, k ∈ p.graph.visibleKeys → k ∈ c.graph.visibleKeys

end Container

/-! ### Candidates and contenders -/

namespace Graph

open Container

theorem mem_visibleKeys {g : Graph} {k : Key} : k ∈ g.visibleKeys ↔ g.contains k = true := by
  simp [contains, origin?, List.lookup_isSome_iff, visibleKeys]

theorem only_map {α β : Type} (f : α → β) (as : List α) : only (as.map f) = (only as).map f := by
  match as with
  | [] => rfl
  | [_] => rfl
  | _ :: _ :: _ => rfl

section

variable {registry : Registry} {parents : List Container} {k : Key}

theorem owner_candidatesFrom (h : ∀ p ∈ parents, (p.owner? k).map Prod.fst = p.effective? k) (index : Nat)
    (found : List Candidate) :
    (candidatesFrom k index parents found).map (·.owner) =
      List.eraseDupsBy.loop (fun o p => o.id == p.id) (parents.filterMap (·.effective? k))
        (found.map (·.owner)).reverse := by
  induction parents generalizing index found with
  | nil => simp [candidatesFrom, List.eraseDupsBy.loop]
  | cons p ps ih =>
      obtain ⟨hp, hps⟩ := List.forall_mem_cons.1 h
      rw [candidatesFrom, ih hps, List.filterMap_cons, ← hp]
      rcases p.owner? k with _ | ⟨o, b⟩
      · rfl
      · have hany : (found.map (·.owner)).reverse.any (fun p => o.id == p.id) = found.any (·.owner.id == o.id) := by
          simp [List.any_reverse, List.any_map, Function.comp_def, Bool.beq_comm]
        rw [Option.map_some, List.eraseDupsBy.loop, hany]
        by_cases hfound : found.any (·.owner.id == o.id) = true
        · simp only [hfound, if_true]
        · simp only [hfound, if_false, List.map_append, List.map_cons, List.map_nil, List.reverse_append,
            List.reverse_cons, List.reverse_nil, List.nil_append, List.cons_append, Bool.false_eq_true]

/-- The candidates for a key are owned by its contenders. -/
theorem owner_candidates (h : ∀ p ∈ parents, (p.owner? k).map Prod.fst = p.effective? k) :
    (candidates parents k).map (·.owner) = contenders parents k :=
  owner_candidatesFrom h 0 []

theorem policy_of_mem_candidates {cand : Candidate} (h : cand ∈ candidates parents k) :
    cand.owner.policy? k = some cand.policy := by
  obtain ⟨p, b, hp, howner, hpolicy⟩ := parent_of_mem_candidates h
  rw [policy?, (owner?_spec howner).2, Option.map_some, hpolicy]

theorem only_filter_candidates {accepts : Candidate → Bool} {permits : Container → Bool}
    (h : ∀ cand ∈ candidates parents k, accepts cand = permits cand.owner) :
    (only ((candidates parents k).filter accepts)).map (·.owner) =
      only (((candidates parents k).map (·.owner)).filter permits) := by
  rw [← only_map, List.filter_map]
  exact congrArg (fun cs => only (cs.map (·.owner))) (List.filter_congr h)

/-- The owner of the candidate that wins prevails among the contenders. -/
theorem owner_winner (h : ∀ p ∈ parents, (p.owner? k).map Prod.fst = p.effective? k) :
    (winner (candidates parents k)).map (·.owner) = prevailing k (contenders parents k) := by
  have hoverride : (only ((candidates parents k).filter (·.policy = .override))).map (·.owner) =
      only (((candidates parents k).map (·.owner)).filter (·.policy? k = some .override)) :=
    only_filter_candidates fun cand hcand => by simp [policy_of_mem_candidates hcand]
  have hkept : (only ((candidates parents k).filter (·.policy ≠ .ignore))).map (·.owner) =
      only (((candidates parents k).map (·.owner)).filter (·.policy? k ≠ some .ignore)) :=
    only_filter_candidates fun cand hcand => by simp [policy_of_mem_candidates hcand]
  rw [← owner_candidates h, winner, prevailing]
  simp only [Option.orElse_eq_orElse, Option.orElse_eq_or, Option.map_or]
  rw [hoverride, hkept, only_map]

/-! ### Origins -/

theorem mem_inheritedKeys :
    k ∈ inheritedKeys registry parents ↔ registry.contains k = false ∧ ∃ p ∈ parents, p.graph.contains k = true := by
  simp [inheritedKeys, mem_visibleKeys, and_comm]

theorem candidates_eq_nil (h : ¬ ∃ p ∈ parents, p.graph.contains k = true) : candidates parents k = [] := by
  refine List.eq_nil_iff_forall_not_mem.2 fun cand hcand => h ?_
  obtain ⟨p, b, hp, howner, -⟩ := parent_of_mem_candidates hcand
  exact ⟨p, List.mem_of_getElem? hp, contains_of_owner? (by rw [howner]; rfl)⟩

theorem lookup_filterMap {β : Type} (k : Key) (f : Key → Option β) (ks : List Key) :
    (ks.filterMap fun k => (f k).map (k, ·)).lookup k = if k ∈ ks then f k else none := by
  induction ks with
  | nil => rfl
  | cons k' ks ih =>
      by_cases heq : k = k'
      · subst heq
        rcases h : f k with _ | a
        · simp [h, ih]
        · simp [h]
      · rcases h : f k' with _ | a
        · simp [h, ih, heq]
        · simp [h, ih, heq, List.lookup_cons, beq_eq_false_iff_ne.2 heq]

/-- A key that the registry does not bind comes from the parent of the candidate that wins. -/
theorem lookup_inherited (h : registry.contains k = false) :
    (inheritedOrigins (inherited registry parents)).lookup k =
      (winner (candidates parents k)).map fun cand => .parent cand.parent := by
  have hlookup := lookup_filterMap k
    (fun k => (winner (candidates parents k)).map fun cand => Origin.parent cand.parent) (inheritedKeys registry parents)
  simp only [Option.map_map, Function.comp_def] at hlookup
  rw [inheritedOrigins, inherited, List.filterMap_map]
  refine hlookup.trans ?_
  split
  · rfl
  · next hnot =>
    rw [candidates_eq_nil fun hsight => hnot (mem_inheritedKeys.2 ⟨h, hsight⟩)]
    rfl

theorem origin?_assemble_inherited (registry : Registry) (parents : List Container) (k : Key) :
    (assemble registry (inherited registry parents)).origin? k =
      if registry.contains k then some .own
      else (winner (candidates parents k)).map fun cand => .parent cand.parent := by
  rw [origin?_assemble]
  split
  · next hown =>
    obtain ⟨b, hlookup⟩ := Option.isSome_iff_exists.1 hown
    simp [hlookup]
  · next hown =>
    have hnone : registry.lookup k = none := by simpa [Registry.contains] using hown
    rw [hnone, Option.map_none, Option.none_or, lookup_inherited (by simpa using hown)]

theorem origin?_eq {c : Container} (h : c.Linked) (k : Key) :
    c.graph.origin? k =
      if c.registry.contains k then some .own
      else (winner (candidates c.parents k)).map fun cand => .parent cand.parent := by
  rw [(link_eq_ok h).1, origin?_assemble_inherited]

/-- In a graph that links, a key that a parent has in sight is won by some candidate. -/
theorem winner_isSome {c : Container} (h : c.Linked) (hown : c.registry.contains k = false) {p : Container}
    (hp : p ∈ c.parents) (hsight : p.graph.contains k = true) : (winner (candidates c.parents k)).isSome := by
  by_contra hnone
  obtain ⟨hgraph, hconflicted, -⟩ := link_eq_ok h
  have hmem : k ∈ c.graph.conflicted := by
    rw [hgraph]
    refine List.mem_map.2 ⟨(k, candidates c.parents k), List.mem_filter.2 ⟨?_, by simpa using hnone⟩, rfl⟩
    exact List.mem_map.2 ⟨k, mem_inheritedKeys.2 ⟨hown, p, hp, hsight⟩, rfl⟩
  rw [hconflicted] at hmem
  cases hmem

end

end Graph

/-! ### Linked containers -/

namespace Container

/-- The owner that the origins lead to is the one that bindings and policies name. -/
theorem owner?_eq_effective? {c : Container} (h : c.Rooted) (k : Key) :
    (c.owner? k).map Prod.fst = c.effective? k := by
  induction c using Container.induction with
  | _ c ih =>
      have hparents : ∀ p ∈ c.parents, (p.owner? k).map Prod.fst = p.effective? k :=
        fun p hp => ih p hp (h.parent hp)
      rw [effective?_eq]
      split
      · next hown =>
        obtain ⟨b, hlookup⟩ := Option.isSome_iff_exists.1 hown
        rw [h.linked.owner?_own hlookup, Option.map_some]
      · next hown =>
        rw [owner?_eq, Graph.origin?_eq h.linked, if_neg hown, ← Graph.owner_winner hparents]
        rcases hwinner : Graph.winner (Graph.candidates c.parents k) with _ | cand
        · rfl
        · obtain ⟨p, b, hp, howner, -⟩ := Graph.parent_of_mem_candidates (Graph.mem_of_winner hwinner)
          simp [hp, howner]

namespace Rooted

variable {c : Container} {k : Key}

theorem owner?_of_effective? (h : c.Rooted) {o : Container} (ho : c.effective? k = some o) :
    ∃ b, o.registry.lookup k = some b ∧ c.owner? k = some (o, b) ∧ c.lookup k = some b := by
  rw [← owner?_eq_effective? h] at ho
  obtain ⟨⟨_, b⟩, howner, rfl⟩ := Option.map_eq_some_iff.1 ho
  exact ⟨b, (owner?_spec howner).2, howner, by rw [lookup, howner, Option.map_some]⟩

theorem effective?_of_owner? (h : c.Rooted) {o : Container} {b : Binding} (howner : c.owner? k = some (o, b)) :
    c.effective? k = some o := by
  rw [← owner?_eq_effective? h, howner, Option.map_some]

theorem contains_iff (h : c.Rooted) : c.graph.contains k = true ↔ (c.effective? k).isSome := by
  rw [← owner?_eq_effective? h, Option.isSome_map]
  constructor
  · intro hsight
    obtain ⟨o, b, howner⟩ := h.linked.owner?_isSome hsight
    rw [howner]
    rfl
  · exact contains_of_owner?

theorem origin?_own_iff (h : c.Rooted) : c.graph.origin? k = some .own ↔ c.effective? k = some c := by
  constructor
  · intro horigin
    rcases h.linked.origin? horigin with ⟨-, b, hlookup⟩ | ⟨_, _, _, _, hparent, -⟩
    · exact h.effective?_of_owner? (h.linked.owner?_own hlookup)
    · cases hparent
  · intro heffective
    obtain ⟨b, hlookup, -⟩ := h.owner?_of_effective? heffective
    rw [Graph.origin?_eq h.linked, if_pos (by rw [Registry.contains, hlookup]; rfl)]

/-- The parent that an origin names is there and has the same owner for the key. -/
theorem effective?_of_origin? (h : c.Rooted) {index : Nat} (horigin : c.graph.origin? k = some (.parent index)) :
    ∃ p o, c.parents[index]? = some p ∧ p.effective? k = some o ∧ c.effective? k = some o := by
  rcases h.linked.origin? horigin with ⟨hown, -⟩ | ⟨_, p, o, b, heq, hp, howner⟩
  · cases hown
  · obtain rfl := Origin.parent.inj heq
    refine ⟨p, o, hp, (h.parent (List.mem_of_getElem? hp)).effective?_of_owner? howner, ?_⟩
    refine h.effective?_of_owner? (b := b) ?_
    rw [owner?_eq, horigin]
    simp [hp, howner]

theorem contains_of_parent (h : c.Rooted) {p : Container} (hp : p ∈ c.parents) (hsight : p.graph.contains k = true) :
    c.graph.contains k = true := by
  rw [Graph.contains, Graph.origin?_eq h.linked]
  split
  · rfl
  · next hown => simpa using Graph.winner_isSome h.linked (by simpa using hown) hp hsight

theorem agrees (h : c.Rooted) (k : Key) : c.Agrees k where
  owner _ := h.owner?_of_effective?
  unowned hnone := by
    rw [← owner?_eq_effective? h, Option.map_eq_none_iff] at hnone
    exact ⟨hnone, by rw [lookup, hnone, Option.map_none]⟩
  contains := Bool.eq_iff_iff.2 h.contains_iff
  visible := Graph.mem_visibleKeys.trans h.contains_iff
  own := h.origin?_own_iff
  parent _ := h.effective?_of_origin?
  inherits _ hp hsight := Graph.mem_visibleKeys.2 (h.contains_of_parent hp (Graph.mem_visibleKeys.1 hsight))

end Rooted

end Container

/-! ### Containers as they are built -/

theorem Attempt.eval_tellAll {ε : Type} (es : List Event) (me : Thread) (s : Store) :
    (Attempt.tellAll es : Attempt ε Unit).eval me s = (.ok (), es.foldl Store.tell s) := by
  induction es generalizing s with
  | nil => rfl
  | cons e es ih => rw [Attempt.tellAll, Attempt.eval_bind, Attempt.eval_tell, List.foldl_cons, ← ih]

theorem Store.identities_foldl_tell (es : List Event) (s : Store) :
    (es.foldl Store.tell s).identities = s.identities := by
  induction es generalizing s with
  | nil => rfl
  | cons e es ih => rw [List.foldl_cons, ih, Store.tell]

namespace Builder

/-- A container that is built takes the next number, and its graph links. -/
theorem of_eval_build {b : Builder} {me : Thread} {s t : Store} {c : Container}
    (h : b.build.eval me s = (.ok c, t)) :
    c.Linked ∧ c.parents = b.parents ∧ c.id = s.identities ∧ t.identities = s.identities + 1 := by
  rw [build] at h
  split at h
  · cases h
  · rw [Attempt.eval_bind, Attempt.eval_tell] at h
    dsimp only at h
    rw [Attempt.eval_bind, Attempt.eval_tellAll] at h
    dsimp only at h
    split at h
    · cases h
    · next g hlink =>
      obtain ⟨hc, rfl⟩ := Prod.mk.inj h
      obtain rfl := Except.ok.inj hc
      have hidentities := Store.identities_foldl_tell ((Graph.shadowed b.registry b.parents).map (⟨.debug, ·⟩))
        (s.tell ⟨.debug, b.linking⟩)
      exact ⟨hlink, rfl, hidentities, congrArg (· + 1) hidentities⟩

end Builder

/-- The containers that were built one after the other, the last one first. Each was built by some thread, below such
that had been built, in a store that any number of others may have gone on with since. -/
inductive Builds : Store → List Container → Prop
  | start (s : Store) : Builds s []
  | pause {s t : Store} {cs : List Container} (before : Builds s cs) (later : s.identities ≤ t.identities) : Builds t cs
  | build {s t : Store} {cs : List Container} {c : Container} (before : Builds s cs) (me : Thread) (b : Builder)
      (parents : ∀ p ∈ b.parents, p ∈ cs) (built : b.build.eval me s = (.ok c, t)) : Builds t (c :: cs)

namespace Builds

variable {s : Store} {cs : List Container}

theorem linked (h : Builds s cs) : ∀ c ∈ cs, c.Linked := by
  induction h with
  | start => simp
  | pause _ _ ih => exact ih
  | build _ _ _ _ hbuilt ih => exact List.forall_mem_cons.2 ⟨(Builder.of_eval_build hbuilt).1, ih⟩

theorem numbered (h : Builds s cs) : ∀ c ∈ cs, c.id < s.identities := by
  induction h with
  | start => simp
  | pause _ hlater ih => exact fun c hc => Nat.lt_of_lt_of_le (ih c hc) hlater
  | build _ _ _ _ hbuilt ih =>
      obtain ⟨-, -, hid, hidentities⟩ := Builder.of_eval_build hbuilt
      rw [hidentities]
      exact List.forall_mem_cons.2 ⟨hid ▸ Nat.lt_succ_self _, fun c hc => Nat.lt_succ_of_lt (ih c hc)⟩

/-- The parents of what was built were built, and no two containers have one number. -/
theorem family (h : Builds s cs) : Container.Family (· ∈ cs) := by
  induction h with
  | start => exact ⟨by simp, by simp⟩
  | pause _ _ ih => exact ih
  | build hbefore _ _ hparents hbuilt ih =>
      obtain ⟨-, hbelow, hid, -⟩ := Builder.of_eval_build hbuilt
      have hnew := hbefore.numbered
      refine ⟨fun c p hc hp => ?_, fun c d hc hd hsame => ?_⟩
      · rcases List.mem_cons.1 hc with rfl | hc
        · exact List.mem_cons_of_mem _ (hparents p (hbelow ▸ hp))
        · exact List.mem_cons_of_mem _ (ih.parents c p hc hp)
      · rcases List.mem_cons.1 hc with rfl | hcold <;> rcases List.mem_cons.1 hd with rfl | hdold
        · rfl
        · exact absurd (hnew d hdold) (by omega)
        · exact absurd (hnew c hcold) (by omega)
        · exact ih.unique c d hcold hdold hsame

theorem rooted (h : Builds s cs) {c : Container} (hc : c ∈ cs) : c.Rooted :=
  fun a hreaches => h.linked a (h.family.of_reaches hc hreaches)

end Builds

/-- Whatever containers were built, in whatever order, each has exactly the bindings in sight that are in effect for it,
and numbers tell containers apart. -/
theorem Container.agrees_of_builds {s : Store} {cs : List Container} (h : Builds s cs) {c : Container} (hc : c ∈ cs)
    (k : Key) : c.Agrees k ∧ ∀ d ∈ cs, c.id = d.id → c = d :=
  ⟨(h.rooted hc).agrees k, fun d hd => h.family.unique c d hc hd⟩

namespace Lamps

def lamp : Key := .ofType ⟨0, "Lamp", .number⟩

/-- A lamp that stands against others as the policy says. -/
def registry (policy : Policy) : Registry := ⟨[⟨lamp, .given (.made lamp.type 0 (.given "")), [], policy, true⟩]⟩

def below (parents : List Container) (id : Nat) (label : String) (registry : Registry) : Container :=
  ⟨id, label, registry, parents, Graph.assemble registry (Graph.inherited registry parents)⟩

def hall : Container := below [] 0 "hall" (registry .ignore)

def study : Container := below [hall] 1 "study" (registry .override)

def attic : Container := below [hall] 2 "attic" .empty

def house : Container := below [attic, study, hall] 3 "house" .empty

theorem builds_house : ∃ s, Builds s [house, attic, study, hall] :=
  ⟨_, .build (.build (.build (.build (.start .empty) 0 ⟨"hall", registry .ignore, [], []⟩ (by simp) rfl)
    0 ⟨"study", registry .override, [hall], []⟩ (by simp) rfl)
    0 ⟨"attic", .empty, [hall], []⟩ (by simp) rfl)
    0 ⟨"house", .empty, [attic, study, hall], []⟩ (by simp) rfl⟩

end Lamps

open Lamps in
theorem Container.agrees_house : house.graph.origin? lamp = some (.parent 1) ∧ house.effective? lamp = some study ∧
    house.Agrees lamp :=
  have ⟨_, hbuilds⟩ := builds_house
  ⟨rfl, rfl, (agrees_of_builds hbuilds (by simp) lamp).1⟩

end Injection
