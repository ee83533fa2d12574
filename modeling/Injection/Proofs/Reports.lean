import Injection.Proofs.Circles
import Injection.Proofs.Ownership

/-!
What linking reports besides circles. A walk comes to every own binding once, and when it does it says what that binding
misses; so each conflict is told once, each unmet need as often as it is declared, and nothing else is told. Whether a
key is in conflict, or missing, goes by bindings and policies alone.
-/

namespace Injection

/-- What the own binding of a key says it needs. -/
def Registry.declared (r : Registry) (k : Key) : List Dependency := ((r.lookup k).map (·.dependencies)).getD []

namespace Graph

/-! ### What is to be reported -/

/-- Some parent has a binding of the key in effect. -/
def isBrought (parents : List Container) (k : Key) : Bool := parents.any fun p => (p.effective? k).isSome

/-- Parents bring a key that the registry does not bind, and no contender prevails. -/
def isContested (registry : Registry) (parents : List Container) (k : Key) : Bool :=
  !registry.contains k && isBrought parents k && (Container.prevailing k (Container.contenders parents k)).isNone

/-- The key is neither bound nor brought. -/
def isAbsent (registry : Registry) (parents : List Container) (k : Key) : Bool :=
  !registry.contains k && !isBrought parents k

/-- How often an error is to be reported that is not a circle. -/
def due (registry : Registry) (parents : List Container) : LinkError → Nat
  | .conflict k labels =>
    if isContested registry parents k ∧ labels = (Container.contenders parents k).map (·.label) then 1 else 0
  | .missing d (some k) =>
    if isAbsent registry parents d then
      (registry.declared k).countP fun need => need.key = d ∧ ¬ need.isOptional
    else 0
  | .missing _ none => 0
  | .cycle .. => 0

/-- Conflicts and missing bindings are reported as often as they are there, and nothing stands against linking but these
and circles. -/
structure Thorough (registry : Registry) (parents : List Container) : Prop where
  exact : ∀ e, e.closing? = none → (reports registry parents).count e = due registry parents e
  /-- A key in conflict is not missing as well. -/
  apart : ∀ k labels requiredBy, .conflict k labels ∈ reports registry parents →
    .missing k requiredBy ∉ reports registry parents
  links_iff : (∃ g, link registry parents = .ok g) ↔
    (∀ e, due registry parents e = 0) ∧ ∀ k, ¬ Relation.TransGen registry.Needs k k

/-! ### What a walk reports as missing -/

/-- What is wrong with one dependency of `k`, but for circles. -/
def gap? (g : Graph) (k : Key) (d : Dependency) : Option LinkError :=
  if g.contains d.key ∨ d.isOptional ∨ d.key ∈ g.conflicted then none else some (.missing d.key (some k))

def gaps (g : Graph) (k : Key) : List LinkError := ((g.dependenciesOf k).getD []).filterMap (g.gap? k)

/-- What a walk goes on to visit and how often it goes on to report an error: as often as what it visits calls for, and
as it has to on top of that. -/
structure Tallies (g : Graph) (e : LinkError) (w w' : Walk) (extra : List LinkError) : Prop where
  nodup : w.visited.Nodup → w'.visited.Nodup
  own : (∀ k ∈ w.visited, (g.own? k).isSome) → ∀ k ∈ w'.visited, (g.own? k).isSome
  count : ∃ fresh, w'.visited = fresh ++ w.visited ∧
    w'.errors.count e = w.errors.count e + (fresh.flatMap g.gaps ++ extra).count e

section

variable {g : Graph} {e : LinkError} {w w' w'' : Walk} {extra more : List LinkError}

theorem Tallies.refl (w : Walk) : Tallies g e w w [] := ⟨id, id, [], rfl, by simp⟩

theorem Tallies.trans (h : Tallies g e w w' extra) (h' : Tallies g e w' w'' more) :
    Tallies g e w w'' (extra ++ more) := by
  obtain ⟨fresh, hvisited, hcount⟩ := h.count
  obtain ⟨fresh', hvisited', hcount'⟩ := h'.count
  refine ⟨fun hw => h'.nodup (h.nodup hw), fun hw => h'.own (h.own hw), fresh' ++ fresh, ?_, ?_⟩
  · rw [hvisited', hvisited, List.append_assoc]
  · simp only [List.flatMap_append, List.count_append] at hcount hcount' ⊢
    omega

theorem Tallies.report (w : Walk) (e' : LinkError) : Tallies g e w (w.report e') [e'] :=
  ⟨id, id, [], rfl, by simp [Walk.report]⟩

/-- A report of a circle does not count. -/
theorem Tallies.report_cycle (he : e.closing? = none) (w : Walk) (source target : Key) (chain : List Key) :
    Tallies g e w (w.report (.cycle source target chain)) [] := by
  have hne : .cycle source target chain ≠ e := by
    rintro rfl
    cases he
  refine ⟨id, id, [], rfl, ?_⟩
  simp [Walk.report, hne]

/-- Looking at a dependency tells of what is wrong with it, besides what it goes on to visit. -/
theorem Tallies.follow {visit : Walk → Key → Walk} (hvisit : ∀ v d, Tallies g e v (visit v d) []) (k : Key) (w : Walk)
    (d : Dependency) : Tallies g e w (g.follow visit k w d) (g.gap? k d).toList := by
  unfold Graph.follow gap? contains
  rcases g.origin? d.key with _ | origin <;> dsimp only
  · by_cases hmissing : d.isOptional = true ∨ d.key ∈ g.conflicted
    · rw [if_pos (by simpa using hmissing), if_pos (.inr hmissing)]
      exact .refl w
    · rw [if_neg (by simpa using hmissing), if_neg (by simpa using hmissing)]
      exact .report w _
  · simp only [Option.isSome_some, true_or, if_true, Option.toList_none]
    split
    · exact .refl w
    · exact hvisit w d.key

theorem Tallies.foldl_follow {visit : Walk → Key → Walk} (hvisit : ∀ v d, Tallies g e v (visit v d) []) (k : Key)
    (ds : List Dependency) (w : Walk) : Tallies g e w (ds.foldl (g.follow visit k) w) (ds.filterMap (g.gap? k)) := by
  induction ds generalizing w with
  | nil => exact .refl w
  | cons d ds ih =>
      have hcons : (d :: ds).filterMap (g.gap? k) = (g.gap? k d).toList ++ ds.filterMap (g.gap? k) := by
        rw [List.filterMap_cons]
        rcases g.gap? k d <;> rfl
      rw [hcons]
      exact (Tallies.follow hvisit k w d).trans (ih _)

/-- A visit tells of what is wrong with the bindings that it goes through for the first time. -/
theorem Tallies.visit (he : e.closing? = none) (depth : Nat) (w : Walk) (k : Key) :
    Tallies g e w (g.visit depth w k) [] := by
  induction depth generalizing w k with
  | zero => exact .refl w
  | succ depth ih =>
      unfold Graph.visit
      split
      · exact .refl w
      · next entry hentry =>
        split
        · exact .report_cycle he w _ _ _
        · split
          · exact .refl w
          · next hfresh =>
            have hbelow := Tallies.foldl_follow ih k entry.dependencies
              { w with visited := k :: w.visited, chain := w.chain ++ [k] }
            obtain ⟨fresh, hvisited, hcount⟩ := hbelow.count
            have hgaps : g.gaps k = entry.dependencies.filterMap (g.gap? k) := by
              rw [gaps, dependenciesOf, hentry, Option.map_some, Option.getD_some]
            refine ⟨fun hw => hbelow.nodup (List.nodup_cons.2 ⟨hfresh, hw⟩), fun hw => hbelow.own ?_, fresh ++ [k], ?_,
              ?_⟩
            · exact List.forall_mem_cons.2 ⟨by rw [hentry]; rfl, hw⟩
            · rw [List.append_assoc]
              exact hvisited
            · simpa [hgaps] using hcount

theorem Tallies.foldl_visit (he : e.closing? = none) (ks : List Key) (w : Walk) :
    Tallies g e w (ks.foldl (g.visit g.depth) w) [] := by
  induction ks generalizing w with
  | nil => exact .refl w
  | cons k ks ih => exact (Tallies.visit he g.depth w k).trans (ih _)

end

variable {g : Graph}

theorem mem_visited_walk {k : Key} : k ∈ g.walk.visited ↔ (g.own? k).isSome := by
  obtain ⟨hproper, hlisted⟩ := g.proper_walk
  constructor
  · exact (Tallies.foldl_visit (e := .missing k none) rfl g.sortedKeys .start).own (by simp [Walk.start]) k
  · exact fun hown => (hproper.visited k).2 (.inr (hlisted k hown))

theorem gap?_eq_some_iff {k d : Key} {need : Dependency} : g.gap? k need = some (.missing d (some k)) ↔
    (g.contains d = false ∧ d ∉ g.conflicted) ∧ need.key = d ∧ need.isOptional = false := by
  unfold gap?
  split
  · next hfine =>
    refine ⟨nofun, ?_⟩
    rintro ⟨⟨hsight, hpeace⟩, rfl, hneeded⟩
    simp [hsight, hpeace, hneeded] at hfine
  · next hgap =>
    simp only [not_or, Bool.not_eq_true] at hgap
    constructor
    · intro heq
      obtain ⟨rfl, -⟩ := LinkError.missing.inj (Option.some.inj heq)
      exact ⟨⟨hgap.1, hgap.2.2⟩, rfl, hgap.2.1⟩
    · rintro ⟨-, rfl, -⟩
      rfl

theorem mem_gaps {k : Key} {e : LinkError} (h : e ∈ g.gaps k) : ∃ d, e = .missing d (some k) := by
  obtain ⟨d, -, hgap⟩ := List.mem_filterMap.1 h
  unfold gap? at hgap
  split at hgap
  · cases hgap
  · exact ⟨d.key, (Option.some.inj hgap).symm⟩

theorem count_flatMap_gaps {ks : List Key} (hks : ks.Nodup) (d k : Key) :
    (ks.flatMap g.gaps).count (.missing d (some k)) =
      if k ∈ ks then (g.gaps k).count (.missing d (some k)) else 0 := by
  induction ks with
  | nil => rfl
  | cons k' ks ih =>
      obtain ⟨hnew, hks⟩ := List.nodup_cons.1 hks
      rw [List.flatMap_cons, List.count_append, ih hks]
      by_cases heq : k = k'
      · subst heq
        simp [hnew]
      · have hzero : (g.gaps k').count (.missing d (some k)) = 0 := by
          refine List.count_eq_zero.2 fun hmem => heq ?_
          obtain ⟨_, hmissing⟩ := mem_gaps hmem
          exact Option.some.inj (LinkError.missing.inj hmissing).2
        simp [hzero, heq]

/-- Besides circles, the problems of a graph are those of its own bindings. -/
theorem count_problems {e : LinkError} (he : e.closing? = none) :
    ∃ ks : List Key, ks.Nodup ∧ (∀ k, k ∈ ks ↔ (g.own? k).isSome) ∧
      g.problems.count e = (ks.flatMap g.gaps).count e := by
  have htallies : Tallies g e .start g.walk [] := .foldl_visit he g.sortedKeys .start
  obtain ⟨fresh, hvisited, hcount⟩ := htallies.count
  refine ⟨g.walk.visited, htallies.nodup List.nodup_nil, fun k => mem_visited_walk, ?_⟩
  simpa [problems, Walk.start, hvisited] using hcount

theorem count_problems_eq_zero {e : LinkError} (he : e.closing? = none) (hmissing : ∀ d k, e ≠ .missing d (some k)) :
    g.problems.count e = 0 := by
  obtain ⟨ks, -, -, hcount⟩ := count_problems (g := g) he
  rw [hcount, List.count_eq_zero]
  intro hmem
  obtain ⟨k, -, hgap⟩ := List.mem_flatMap.1 hmem
  obtain ⟨d, rfl⟩ := mem_gaps hgap
  exact hmissing d k rfl

theorem count_missing_problems (d k : Key) :
    g.problems.count (.missing d (some k)) = (g.gaps k).count (.missing d (some k)) := by
  obtain ⟨ks, hnodup, hmem, hcount⟩ := count_problems (g := g) (e := .missing d (some k)) rfl
  rw [hcount, count_flatMap_gaps hnodup, if_congr (hmem k) rfl rfl]
  split
  · rfl
  · next hnone => simp [gaps, dependenciesOf, Option.not_isSome_iff_eq_none.1 hnone]

/-! ### What is reported below parents -/

section

variable {registry : Registry} {parents : List Container} {k d : Key}

theorem isBrought_iff (h : ∀ p ∈ parents, p.Rooted) :
    isBrought parents k = true ↔ ∃ p ∈ parents, p.graph.contains k = true := by
  simp only [isBrought, List.any_eq_true]
  exact exists_congr fun p => and_congr_right fun hp => ((h p hp).contains_iff).symm

theorem mem_inheritedKeys_iff (h : ∀ p ∈ parents, p.Rooted) :
    k ∈ inheritedKeys registry parents ↔ registry.contains k = false ∧ isBrought parents k = true := by
  rw [mem_inheritedKeys, isBrought_iff h]

theorem isContested_iff (h : ∀ p ∈ parents, p.Rooted) : isContested registry parents k = true ↔
    k ∈ inheritedKeys registry parents ∧ winner (candidates parents k) = none := by
  rw [mem_inheritedKeys_iff h, isContested,
    ← owner_winner fun p hp => Container.owner?_eq_effective? (h p hp) k]
  simp

theorem contested_inherited : (contested (inherited registry parents)) =
    ((inheritedKeys registry parents).filter fun k => (winner (candidates parents k)).isNone).map
      fun k => (k, candidates parents k) := by
  rw [contested, inherited, List.filter_map]
  rfl

theorem mem_conflicted_iff (h : ∀ p ∈ parents, p.Rooted) :
    k ∈ (assemble registry (inherited registry parents)).conflicted ↔ isContested registry parents k = true := by
  rw [isContested_iff h, assemble, contested_inherited, List.map_map]
  simp

/-- What has no origin and is in no conflict is neither bound nor brought. -/
theorem isAbsent_iff (h : ∀ p ∈ parents, p.Rooted) : isAbsent registry parents k = true ↔
    (assemble registry (inherited registry parents)).contains k = false ∧
      k ∉ (assemble registry (inherited registry parents)).conflicted := by
  rw [mem_conflicted_iff h, isContested_iff h, mem_inheritedKeys_iff h, isAbsent, contains, origin?_assemble]
  rcases hown : registry.contains k with _ | _
  · have hlookup : registry.lookup k = none := by simpa [Registry.contains] using hown
    rw [hlookup, Option.map_none, Option.none_or, lookup_inherited hown]
    rcases hbrought : isBrought parents k with _ | _
    · have hunseen : ¬ ∃ p ∈ parents, p.graph.contains k = true := by
        rw [← isBrought_iff h, hbrought]
        exact Bool.false_ne_true
      rw [candidates_eq_nil hunseen]
      decide
    · simp
  · obtain ⟨b, hlookup⟩ := Option.isSome_iff_exists.1 hown
    simp [hlookup]

theorem conflict_mem_conflicts_iff (h : ∀ p ∈ parents, p.Rooted) (labels : List String) :
    .conflict k labels ∈ conflicts (inherited registry parents) ↔
      isContested registry parents k = true ∧ labels = (Container.contenders parents k).map (·.label) := by
  rw [isContested_iff h, ← owner_candidates fun p hp => Container.owner?_eq_effective? (h p hp) k, List.map_map]
  simp only [conflicts, contested_inherited, Text.mem_sortOn, List.map_map, List.mem_map, List.mem_filter,
    Option.isNone_iff_eq_none, Function.comp_def, LinkError.conflict.injEq]
  constructor
  · rintro ⟨_, hcontested, rfl, rfl⟩
    exact ⟨hcontested, rfl⟩
  · rintro ⟨hcontested, rfl⟩
    exact ⟨k, hcontested, rfl, rfl⟩

theorem nodup_conflicts : (conflicts (inherited registry parents)).Nodup := by
  rw [conflicts, (Text.sortOn_perm _ _).nodup_iff, contested_inherited, List.map_map]
  refine ((nodup_distinct _).filter _).map fun k k' heq => ?_
  exact (LinkError.conflict.inj heq).1

theorem count_missing (h : ∀ p ∈ parents, p.Rooted) (d k : Key) :
    (assemble registry (inherited registry parents)).problems.count (.missing d (some k)) =
      due registry parents (.missing d (some k)) := by
  have hgap (need : Dependency) :
      ((assemble registry (inherited registry parents)).gap? k need == some (.missing d (some k))) =
        (isAbsent registry parents d && decide (need.key = d ∧ ¬ need.isOptional)) := by
    rw [Bool.eq_iff_iff, beq_iff_eq, gap?_eq_some_iff, ← isAbsent_iff h]
    simp
  rw [count_missing_problems, gaps, dependenciesOf, own?_assemble, Option.map_map, List.count_filterMap, due,
    Registry.declared]
  simp only [hgap]
  split
  · next habsent => simp only [habsent, Bool.true_and, Function.comp_def]
  · next hfound => simp [hfound]

/-- Besides circles, nothing is reported more or less often than it is due. -/
theorem count_reports (h : ∀ p ∈ parents, p.Rooted) {e : LinkError} (he : e.closing? = none) :
    (reports registry parents).count e = due registry parents e := by
  rw [reports_eq, List.count_append]
  rcases e with ⟨d, _ | k⟩ | ⟨source, target, chain⟩ | ⟨k, labels⟩
  case missing.none => rw [count_problems_eq_zero rfl (by simp), List.count_eq_zero.2 (by simp [conflicts]), due]
  case missing.some =>
    rw [count_missing h, List.count_eq_zero.2 (by simp [conflicts]), Nat.zero_add]
  case cycle => cases he
  case conflict =>
    rw [count_problems_eq_zero rfl (by simp), nodup_conflicts.count, due, Nat.add_zero]
    exact if_congr (conflict_mem_conflicts_iff h labels) rfl rfl

theorem mem_reports_iff (h : ∀ p ∈ parents, p.Rooted) {e : LinkError} (he : e.closing? = none) :
    e ∈ reports registry parents ↔ due registry parents e ≠ 0 := by
  rw [← count_reports h he, Ne, List.count_eq_zero, not_not]

theorem links_iff_reports_eq_nil : (∃ g, link registry parents = .ok g) ↔ reports registry parents = [] := by
  constructor
  · rintro ⟨g, hlink⟩
    rw [reports, hlink]
  · intro hnil
    rw [reports_eq] at hnil
    exact ⟨assemble registry (inherited registry parents), by simp only [link, faults, hnil]⟩

theorem isBrought_of_due {labels : List String} (h : due registry parents (.conflict k labels) ≠ 0) :
    isBrought parents k = true := by
  by_contra hnone
  simp [due, isContested, hnone] at h

theorem isBrought_of_due_missing {requiredBy : Option Key} (h : due registry parents (.missing d requiredBy) ≠ 0) :
    isBrought parents d = false := by
  by_contra hbrought
  rcases requiredBy with _ | k <;> simp [due, isAbsent, hbrought] at h

theorem apart_of_mem_reports (h : ∀ p ∈ parents, p.Rooted) {labels : List String} {requiredBy : Option Key}
    (hconflict : .conflict k labels ∈ reports registry parents) : .missing k requiredBy ∉ reports registry parents := by
  intro hmissing
  have hbrought := isBrought_of_due ((mem_reports_iff h rfl).1 hconflict)
  rw [isBrought_of_due_missing ((mem_reports_iff h rfl).1 hmissing)] at hbrought
  cases hbrought

theorem links_iff_due (h : ∀ p ∈ parents, p.Rooted) : (∃ g, link registry parents = .ok g) ↔
    (∀ e, due registry parents e = 0) ∧ ∀ k, ¬ Relation.TransGen registry.Needs k k := by
  have hcircles := (findsCircles_problems registry (inherited registry parents)).none_iff
  simp only [← cycle_mem_reports_iff] at hcircles
  rw [links_iff_reports_eq_nil, ← hcircles, List.eq_nil_iff_forall_not_mem]
  constructor
  · intro hnil
    refine ⟨fun e => ?_, fun source target chain => hnil _⟩
    rcases hclosing : e.closing? with _ | need
    · exact not_not.1 ((mem_reports_iff h hclosing).not.1 (hnil e))
    · rcases e with _ | _ | _
      · cases hclosing
      · rfl
      · cases hclosing
  · rintro ⟨hdue, hnone⟩ e
    rcases hclosing : e.closing? with _ | need
    · exact (mem_reports_iff h hclosing).not.2 (not_not.2 (hdue e))
    · rcases e with _ | _ | _
      · cases hclosing
      · exact hnone _ _ _
      · cases hclosing

end

end Graph

/-- Below any containers that were built, linking reports all conflicts and missing bindings and nothing else but
circles. -/
theorem Graph.thorough_of_builds {s : Store} {cs parents : List Container} (h : Builds s cs)
    (hparents : ∀ p ∈ parents, p ∈ cs) (registry : Registry) : Thorough registry parents :=
  have hrooted : ∀ p ∈ parents, p.Rooted := fun p hp => h.rooted (hparents p hp)
  ⟨fun _ => count_reports hrooted, fun _ _ _ => apart_of_mem_reports hrooted, links_iff_due hrooted⟩

namespace Lamps

def candle : Key := .ofType ⟨1, "Candle", .number⟩

def chandelier : Key := .ofType ⟨2, "Chandelier", .number⟩

def cellar : Container := below [] 0 "cellar" (registry .fail)

def barn : Container := below [] 1 "barn" (registry .fail)

/-- A chandelier that needs a lamp, which two parents quarrel over, and candles, which nobody has. -/
def hanging : Registry :=
  ⟨[⟨chandelier, .given (.made chandelier.type 0 (.given "")),
    [.required lamp, .required candle, .deferred candle, (Dependency.required candle).optional], .fail, true⟩]⟩

theorem builds_barn : ∃ s, Builds s [barn, cellar] :=
  ⟨_, .build (.build (.start .empty) 0 ⟨"cellar", registry .fail, [], []⟩ (by simp) rfl)
    0 ⟨"barn", registry .fail, [], []⟩ (by simp) rfl⟩

end Lamps

open Lamps in
theorem Graph.thorough_hanging : due hanging [cellar, barn] (.conflict lamp ["cellar", "barn"]) = 1 ∧
    due hanging [cellar, barn] (.missing candle (some chandelier)) = 2 ∧ Thorough hanging [cellar, barn] :=
  have ⟨_, hbuilds⟩ := builds_barn
  ⟨rfl, rfl, thorough_of_builds hbuilds (by simp) hanging⟩

end Injection
