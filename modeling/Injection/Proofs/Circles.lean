import Injection.Proofs.Linking

/-!
Circles that linking reports. Each report of a circle is one: a way from a key along needs that are to be met at once,
back to that key. Not all circles are reported, but none is missed: every closed way comes along one of the reported
needs, so that putting off exactly these leaves no circle at all.
-/

namespace Injection

/-- The own binding under `k` needs an own binding under `d` at once. -/
def Registry.Needs (r : Registry) (k d : Key) : Prop :=
  ∃ b, r.lookup k = some b ∧ (∃ dependency ∈ b.dependencies, dependency.key = d ∧ dependency.isLazy = false) ∧
    r.contains d = true

/-- The binding with those of its needs put off until they are used that stand in the list. -/
def BindingOf.deferring {given step : Type} (b : BindingOf given step) (needs : List (Key × Key)) :
    BindingOf given step :=
  { b with dependencies := b.dependencies.map fun d => { d with isLazy := d.isLazy || (b.key, d.key) ∈ needs } }

def Registry.deferring (r : Registry) (needs : List (Key × Key)) : Registry := ⟨r.bindings.map (·.deferring needs)⟩

/-- The need that closes a circle, if the error reports one. -/
def LinkError.closing? : LinkError → Option (Key × Key)
  | .cycle source target _ => some (source, target)
  | _ => none

namespace Registry

variable {r : Registry} {needs : List (Key × Key)} {k d : Key}

theorem lookup_deferring : (r.deferring needs).lookup k = (r.lookup k).map (·.deferring needs) := by
  rw [lookup, lookup, deferring, List.find?_map]
  rfl

theorem contains_deferring : (r.deferring needs).contains k = r.contains k := by
  simp [contains, lookup_deferring]

/-- What is needed at once after putting off was needed at once and was not put off. -/
theorem Needs.of_deferring (h : (r.deferring needs).Needs k d) : r.Needs k d ∧ (k, d) ∉ needs := by
  obtain ⟨_, hdeferred, ⟨_, hmem, hkey, hlazy⟩, hcontains⟩ := h
  rw [lookup_deferring] at hdeferred
  obtain ⟨b, hlookup, rfl⟩ := Option.map_eq_some_iff.1 hdeferred
  obtain ⟨dependency, hdependency, rfl⟩ := List.mem_map.1 hmem
  obtain rfl : dependency.key = d := hkey
  rw [Bool.or_eq_false_iff, decide_eq_false_iff_not, key_of_lookup hlookup] at hlazy
  rw [contains_deferring] at hcontains
  exact ⟨⟨b, hlookup, ⟨dependency, hdependency, rfl, hlazy.1⟩, hcontains⟩, hlazy.2⟩

end Registry

namespace Graph

/-! ### Needs of a graph and of its registry -/

section

variable {registry : Registry} {brought : List (Key × List Candidate)} {k d : Key}

theorem contains_assemble_of_contains (h : registry.contains k = true) :
    (assemble registry brought).contains k = true := by
  obtain ⟨b, hlookup⟩ := Option.isSome_iff_exists.1 h
  simp [contains, origin?_assemble, hlookup]

theorem needs_assemble_iff : (assemble registry brought).Needs k d ↔ registry.Needs k d := by
  unfold Needs Registry.Needs
  rw [own?_assemble, own?_assemble]
  constructor
  · rintro ⟨entry, hentry, dependency, hmem, hkey, hlazy, -, hown⟩
    obtain ⟨b, hlookup, rfl⟩ := Option.map_eq_some_iff.1 hentry
    exact ⟨b, hlookup, ⟨dependency, hmem, hkey, hlazy⟩, by simpa [Registry.contains] using hown⟩
  · rintro ⟨b, hlookup, ⟨dependency, hmem, hkey, hlazy⟩, hcontains⟩
    refine ⟨_, by rw [hlookup]; rfl, dependency, hmem, hkey, hlazy, contains_assemble_of_contains hcontains, ?_⟩
    simpa [Registry.contains] using hcontains

theorem needs_assemble : (assemble registry brought).Needs = registry.Needs :=
  funext₂ fun _ _ => propext needs_assemble_iff

end

/-! ### Closed ways -/

section

variable {R : Key → Key → Prop} {k : Key} {way : List Key}

theorem transGen_of_closed (hlength : 2 ≤ way.length) (hhead : way.head? = some k) (hlast : way.getLast? = some k)
    (h : way.IsChain R) : Relation.TransGen R k k := by
  match way, hhead with
  | k :: first :: rest, rfl =>
    obtain ⟨hfirst, hrest⟩ := List.isChain_cons_cons.1 h
    rw [List.getLast?_cons_cons] at hlast
    refine .head' hfirst (List.relationReflTransGen_of_exists_isChain_cons rest hrest ?_)
    exact List.getLast_of_getLast?_eq_some hlast

end

/-! ### What is reported -/

/-- Circles that are reported, and those that are there. -/
structure FindsCircles (registry : Registry) (errors : List LinkError) : Prop where
  /-- What is reported is a circle. -/
  real : ∀ source target chain, .cycle source target chain ∈ errors → Circle registry.Needs source target chain
  /-- Every closed way comes along a need that is reported to close a circle. -/
  all : ∀ way, 2 ≤ way.length → way.head? = way.getLast? → way.IsChain registry.Needs →
    ∃ source target chain, [source, target] <:+: way ∧ .cycle source target chain ∈ errors
  none_iff : (∀ source target chain, .cycle source target chain ∉ errors) ↔
    ∀ k, ¬ Relation.TransGen registry.Needs k k

section

variable (registry : Registry) (brought : List (Key × List Candidate))

theorem circle_of_mem_problems {source target : Key} {chain : List Key}
    (h : .cycle source target chain ∈ (assemble registry brought).problems) :
    Circle registry.Needs source target chain := by
  have hcircle := (proper_walk (assemble registry brought)).1.circles source target chain h
  rwa [needs_assemble] at hcircle

/-- The needs that are not reported close no circle. -/
theorem not_circular_unreported (k : Key) : ¬ Relation.TransGen (fun k d => registry.Needs k d ∧
    ∀ chain, .cycle k d chain ∉ (assemble registry brought).problems) k k := by
  intro hpath
  refine not_circular_remains (assemble registry brought) k (hpath.lift id fun _ _ hneeds => ?_)
  exact ⟨needs_assemble_iff.2 hneeds.1, hneeds.2⟩

theorem findsCircles_problems : FindsCircles registry (assemble registry brought).problems where
  real _ _ _ := circle_of_mem_problems registry brought
  all way hlength hends hchain := by
    by_contra hnone
    simp only [not_exists, not_and] at hnone
    obtain ⟨k, hhead⟩ : ∃ k, way.head? = some k := by
      rcases way with _ | ⟨k, rest⟩
      · simp at hlength
      · exact ⟨k, rfl⟩
    refine not_circular_unreported registry brought k (transGen_of_closed hlength hhead (hends ▸ hhead) ?_)
    refine List.isChain_iff_forall_rel_of_append_cons_cons.2 fun source target before after hsplit => ?_
    refine ⟨List.isChain_iff_forall_rel_of_append_cons_cons.1 hchain hsplit, fun chain => ?_⟩
    exact hnone source target chain ⟨before, after, by rw [hsplit, List.append_assoc]; rfl⟩
  none_iff := by
    constructor
    · intro hnone k hpath
      exact not_circular_unreported registry brought k (hpath.lift id fun k d hneeds => ⟨hneeds, hnone k d⟩)
    · intro hacyclic source target chain hmem
      have hcircle := circle_of_mem_problems registry brought hmem
      exact hacyclic target (transGen_of_closed hcircle.two_le_length hcircle.head hcircle.last hcircle.linked)

end

/-- Everything that linking reports. -/
def reports (registry : Registry) (parents : List Container) : List LinkError :=
  match link registry parents with
  | .ok _ => []
  | .error es => es

theorem reports_eq (registry : Registry) (parents : List Container) :
    reports registry parents =
      conflicts (inherited registry parents) ++ (assemble registry (inherited registry parents)).problems := by
  rw [reports, link]
  split
  · next hlink =>
    split at hlink
    · next hfaults => exact hfaults.symm
    · cases hlink
  · next hlink =>
    split at hlink
    · cases hlink
    · exact (Except.error.inj hlink).symm

theorem cycle_notMem_conflicts (brought : List (Key × List Candidate)) (source target : Key) (chain : List Key) :
    .cycle source target chain ∉ conflicts brought := by
  simp [conflicts]

theorem cycle_mem_reports_iff (registry : Registry) (parents : List Container) (source target : Key)
    (chain : List Key) : .cycle source target chain ∈ reports registry parents ↔
      .cycle source target chain ∈ (assemble registry (inherited registry parents)).problems := by
  rw [reports_eq, List.mem_append]
  exact or_iff_right (cycle_notMem_conflicts _ source target chain)

/-- The check of a graph finds its circles, linking reports just those, and a registry in which the needs are put off
that are reported to close a circle has none. -/
theorem findsCircles (registry : Registry) (parents : List Container) :
    let problems := (assemble registry (inherited registry parents)).problems
    FindsCircles registry problems ∧
      (∀ source target chain,
        .cycle source target chain ∈ reports registry parents ↔ .cycle source target chain ∈ problems) ∧
      ∀ source target chain,
        .cycle source target chain ∉ reports (registry.deferring (problems.filterMap LinkError.closing?)) parents := by
  intro problems
  refine ⟨findsCircles_problems registry _, cycle_mem_reports_iff registry parents, ?_⟩
  intro source target chain hmem
  rw [cycle_mem_reports_iff] at hmem
  refine (findsCircles_problems _ _).none_iff.2 (fun k hpath => ?_) source target chain hmem
  refine not_circular_unreported registry (inherited registry parents) k (hpath.lift id fun k d hneeds => ?_)
  obtain ⟨hneeds, hkept⟩ := hneeds.of_deferring
  refine ⟨hneeds, fun chain hcycle => hkept ?_⟩
  exact List.mem_filterMap.2 ⟨_, hcycle, rfl⟩

end Graph

namespace Seasons

def summer : Key := .ofType ⟨0, "Summer", .number⟩

def winter : Key := .ofType ⟨1, "Winter", .number⟩

/-- A binding that comes after another one. -/
def following (k other : Key) : Binding := ⟨k, .given (.made k.type 0 (.given "")), [.required other], .fail, true⟩

/-- Each of the two comes after the other one. -/
def year : Registry := ⟨[following summer winter, following winter summer]⟩

theorem needs_year : year.Needs summer winter ∧ year.Needs winter summer :=
  ⟨⟨_, rfl, ⟨.required winter, List.mem_singleton_self _, rfl, rfl⟩, rfl⟩,
    ⟨_, rfl, ⟨.required summer, List.mem_singleton_self _, rfl, rfl⟩, rfl⟩⟩

end Seasons

open Seasons in
theorem Graph.findsCircles_year : reports year [] = [.cycle winter summer [summer, winter, summer]] ∧
    ∃ source target chain, [source, target] <:+: [winter, summer, winter] ∧
      .cycle source target chain ∈ reports year [] := by
  obtain ⟨hfinds, hreports, -⟩ := findsCircles year []
  obtain ⟨source, target, chain, hwithin, hmem⟩ := hfinds.all [winter, summer, winter] (by decide) rfl
    (.cons_cons needs_year.2 (.cons_cons needs_year.1 (.singleton _)))
  exact ⟨rfl, source, target, chain, hwithin, (hreports source target chain).2 hmem⟩

end Injection
