import Injection.Graph.Walk
import Mathlib.Data.List.Chain
import Mathlib.Data.List.Nodup
import Mathlib.Data.List.Perm.Subperm
import Mathlib.Data.List.TakeWhile
import Mathlib.Logic.Relation

/-!
What a walk finds out. A walk lists every own binding it comes to after the own bindings that one needs at once, but for
the needs that it reports to lead back; what is neither in sight nor reported may be missing. So the needs that are not
reported close no circle, and each report of a circle names one. The depth a walk is given is always enough, because the
chain of bindings being visited holds each own binding once at most.
-/

namespace Injection

/-- A way from a key back to itself, along a relation, that comes to no other key twice and to `source` last. -/
structure Circle (needs : Key → Key → Prop) (source target : Key) (chain : List Key) : Prop where
  two_le_length : 2 ≤ chain.length
  head : chain.head? = some target
  last : chain.getLast? = some target
  beforeLast : chain.dropLast.getLast? = some source
  distinct : chain.dropLast.Nodup
  linked : chain.IsChain needs

namespace Graph

/-- The own binding under `k` needs the own binding under `d` at once. -/
def Needs (g : Graph) (k d : Key) : Prop :=
  ∃ entry, g.own? k = some entry ∧ ∃ dependency ∈ entry.dependencies,
    dependency.key = d ∧ dependency.isLazy = false ∧ g.contains d = true ∧ (g.own? d).isSome

/-- A need that no error reports to lead back. -/
def Remains (g : Graph) (errors : List LinkError) (k d : Key) : Prop :=
  g.Needs k d ∧ ∀ chain, .cycle k d chain ∉ errors

/-- A dependency of `k` that a walk has nothing left to do for, once `done` is listed and these errors are reported. -/
def Served (g : Graph) (errors : List LinkError) (k : Key) (done : List Key) (d : Dependency) : Prop :=
  match g.origin? d.key with
  | none => d.isOptional = true ∨ d.key ∈ g.conflicted ∨ .missing d.key (some k) ∈ errors
  | some _ => d.isLazy = true ∨ g.own? d.key = none ∨ d.key ∈ done ∨ ∃ chain, .cycle k d.key chain ∈ errors

/-- A list of own bindings in which everything is served by what stands before it. -/
inductive Sorted (g : Graph) (errors : List LinkError) : List Key → Prop
  | nil : Sorted g errors []
  | snoc {done : List Key} {k : Key} {entry : Entry} (sorted : Sorted g errors done) (own : g.own? k = some entry)
      (served : ∀ d ∈ entry.dependencies, g.Served errors k done d) : Sorted g errors (done ++ [k])

variable {g : Graph} {errors more : List LinkError}

theorem Served.mono {k : Key} {done later : List Key} {d : Dependency} (h : g.Served errors k done d)
    (herrors : errors ⊆ more) (hdone : done ⊆ later) : g.Served more k later d := by
  unfold Served at h ⊢
  split
  · next hnone =>
    simp only [hnone] at h
    exact h.imp_right (Or.imp_right fun hmissing => herrors hmissing)
  · next hsome =>
    simp only [hsome] at h
    exact h.imp_right (Or.imp_right (Or.imp (fun hmem => hdone hmem) (Exists.imp fun _ hcycle => herrors hcycle)))

/-- What an own binding needs at once is listed once it is served, unless it is reported. -/
theorem Served.mem_of_remains {done : List Key} {k d : Key} {entry : Entry} (hown : g.own? k = some entry)
    (hserved : ∀ d ∈ entry.dependencies, g.Served errors k done d) (hremains : g.Remains errors k d) : d ∈ done := by
  obtain ⟨⟨entry', hentry, dependency, hmem, rfl, hlazy, hsight, hdep⟩, hunreported⟩ := hremains
  obtain rfl : entry = entry' := Option.some.inj (hown.symm.trans hentry)
  obtain ⟨origin, horigin⟩ := Option.isSome_iff_exists.1 hsight
  have hdone := hserved dependency hmem
  simp only [Served, horigin, hlazy, Bool.false_eq_true, false_or] at hdone
  rcases hdone with hnone | hdone | ⟨chain, hcycle⟩
  · rw [hnone] at hdep
    cases hdep
  · exact hdone
  · exact absurd hcycle (hunreported chain)

namespace Sorted

variable {ks : List Key}

theorem mono (h : g.Sorted errors ks) (herrors : errors ⊆ more) : g.Sorted more ks := by
  induction h with
  | nil => exact .nil
  | snoc _ hown hserved ih => exact .snoc ih hown fun d hd => (hserved d hd).mono herrors (List.Subset.refl _)

theorem mem_of_remains (h : g.Sorted errors ks) {k d : Key} (hk : k ∈ ks) (hremains : g.Remains errors k d) :
    d ∈ ks := by
  induction h with
  | nil => cases hk
  | snoc _ hown hserved ih =>
      refine List.mem_append_left _ ?_
      rcases List.mem_append.1 hk with hk | hk
      · exact ih hk
      · obtain rfl := List.mem_singleton.1 hk
        exact Served.mem_of_remains hown hserved hremains

theorem mem_of_transGen (h : g.Sorted errors ks) {k d : Key} (hk : k ∈ ks)
    (hpath : Relation.TransGen (g.Remains errors) k d) : d ∈ ks := by
  induction hpath with
  | single hremains => exact h.mem_of_remains hk hremains
  | tail _ hremains ih => exact h.mem_of_remains ih hremains

/-- No own binding in the list needs itself, not even through others, but for needs that are reported. -/
theorem not_circular (h : g.Sorted errors ks) {k : Key} (hk : k ∈ ks) :
    ¬ Relation.TransGen (g.Remains errors) k k := by
  induction h with
  | nil => cases hk
  | snoc hsorted hown hserved ih =>
      intro hpath
      rcases List.mem_append.1 hk with hk | hk
      · exact ih hk hpath
      · obtain rfl := List.mem_singleton.1 hk
        -- what it needs stands before it, and so does all that this needs in turn
        obtain ⟨d, hremains, hback⟩ := Relation.TransGen.head'_iff.1 hpath
        have hd := Served.mem_of_remains hown hserved hremains
        rcases Relation.reflTransGen_iff_eq_or_transGen.1 hback with heq | hback
        · exact ih (heq ▸ hd) hpath
        · exact ih (hsorted.mem_of_transGen hd hback) hpath

theorem served (h : g.Sorted errors ks) {k : Key} (hk : k ∈ ks) {entry : Entry} (hown : g.own? k = some entry) :
    ∀ d ∈ entry.dependencies, g.Served errors k ks d := by
  induction h with
  | nil => cases hk
  | snoc _ hlast hserved ih =>
      intro d hd
      refine Served.mono ?_ (List.Subset.refl _) (List.subset_append_left _ _)
      rcases List.mem_append.1 hk with hk | hk
      · exact ih hk d hd
      · obtain rfl := List.mem_singleton.1 hk
        obtain rfl := Option.some.inj (hlast.symm.trans hown)
        exact hserved d hd

end Sorted

theorem own?_isSome_iff {k : Key} : (g.own? k).isSome ↔ k ∈ g.entries.map (·.key) := by
  simp [own?]

end Graph

/-! ### Walks under way -/

namespace Walk

variable {g : Graph} {w w' w'' : Walk}

/-- What a walk leaves as it was, and what it only adds to. -/
structure Grows (w w' : Walk) : Prop where
  chain : w'.chain = w.chain
  order : w.order ⊆ w'.order
  errors : w.errors <+: w'.errors

namespace Grows

theorem refl (w : Walk) : Grows w w := ⟨rfl, fun _ h => h, List.prefix_refl _⟩

theorem trans (h : Grows w w') (h' : Grows w' w'') : Grows w w'' :=
  ⟨h'.chain.trans h.chain, fun _ hk => h'.order (h.order hk), h.errors.trans h'.errors⟩

theorem report (w : Walk) (e : LinkError) : Grows w (w.report e) :=
  ⟨rfl, fun _ h => h, List.prefix_append _ _⟩

end Grows

/-- A walk in good order: each binding of the chain needs the next, visited are the bindings of the chain and those that
are done, all that are done are served, and each circle that is reported is one. -/
structure Proper (g : Graph) (w : Walk) : Prop where
  visited : ∀ k, k ∈ w.visited ↔ k ∈ w.chain ∨ k ∈ w.order
  own : ∀ k ∈ w.chain, k ∈ g.entries.map (·.key)
  nodup : w.chain.Nodup
  linked : w.chain.IsChain g.Needs
  sorted : g.Sorted w.errors w.order
  circles : ∀ source target chain, .cycle source target chain ∈ w.errors → Circle g.Needs source target chain

theorem Proper.start (g : Graph) : Proper g .start where
  visited k := by simp [Walk.start]
  own k hk := nomatch hk
  nodup := List.nodup_nil
  linked := .nil
  sorted := .nil
  circles _ _ _ he := nomatch he

theorem mem_errors_report {w : Walk} {e e' : LinkError} : e' ∈ (w.report e).errors ↔ e' ∈ w.errors ∨ e' = e := by
  simp [report]

theorem Proper.report (h : Proper g w) {e : LinkError}
    (he : ∀ source target chain, e = .cycle source target chain → Circle g.Needs source target chain) :
    Proper g (w.report e) where
  visited := h.visited
  own := h.own
  nodup := h.nodup
  linked := h.linked
  sorted := h.sorted.mono (List.subset_append_left _ _)
  circles source target chain hmem := by
    rcases mem_errors_report.1 hmem with hold | hnew
    · exact h.circles source target chain hold
    · exact he source target chain hnew.symm

theorem Proper.length_le (h : Proper g w) : w.chain.length ≤ g.entries.length := by
  have hle := (List.subperm_of_subset h.nodup fun k hk => h.own k hk).length_le
  rwa [List.length_map] at hle

/-- The binding that a walk comes from is needed to visit the next one. -/
def Leads (g : Graph) (w : Walk) (k : Key) : Prop := ∀ last ∈ w.chain.getLast?, (g.own? k).isSome → g.Needs last k

/-- The chain from the place of a key on closes a circle when the walk comes to that key again. -/
theorem Proper.circle (h : Proper g w) {k : Key} (hk : k ∈ w.chain) (hown : (g.own? k).isSome)
    (hleads : w.Leads g k) : Circle g.Needs (w.chain.getLast?.getD k) k (w.circle k) := by
  obtain ⟨rest, hway⟩ : ∃ rest, w.chain.dropWhile (· ≠ k) = k :: rest := by
    rcases hway : w.chain.dropWhile (· ≠ k) with _ | ⟨first, rest⟩
    · simpa using List.dropWhile_eq_nil_iff.1 hway k hk
    · have hfirst := List.head?_dropWhile_not (fun x => decide (x ≠ k)) w.chain
      rw [hway] at hfirst
      exact ⟨rest, by simpa using hfirst⟩
  have hsuffix : k :: rest <:+ w.chain := hway ▸ List.dropWhile_suffix _
  have hlast : (k :: rest).getLast? = w.chain.getLast? := by
    obtain ⟨before, hchain⟩ := hsuffix
    rw [← hchain, List.getLast?_append, List.getLast?_cons]
    rfl
  have hcircle : w.circle k = (k :: rest) ++ [k] := by rw [Walk.circle, hway]
  rw [hcircle]
  constructor
  case two_le_length => simp
  case head => rfl
  case last => rw [List.getLast?_concat]
  case beforeLast => rw [List.dropLast_concat, hlast, ← hlast, List.getLast?_cons, Option.getD_some]
  case distinct => exact List.dropLast_concat ▸ hsuffix.sublist.nodup h.nodup
  case linked =>
    refine (h.linked.suffix hsuffix).append (.singleton k) ?_
    intro last hmem first hfirst
    obtain rfl : k = first := by simpa using hfirst
    exact hleads last (hlast ▸ hmem) hown

theorem Proper.enter (hw : Proper g w) {k : Key} {entry : Entry} (hentry : g.own? k = some entry)
    (hchain : k ∉ w.chain) (hleads : w.Leads g k) :
    Proper g { w with visited := k :: w.visited, chain := w.chain ++ [k] } where
  visited x := by
    simp only [List.mem_cons, hw.visited, List.mem_append, List.not_mem_nil, or_false]
    tauto
  own x hx := by
    rcases List.mem_append.1 hx with hx | hx
    · exact hw.own x hx
    · rw [List.mem_singleton.1 hx]
      exact Graph.own?_isSome_iff.1 (by rw [hentry]; rfl)
  nodup := by
    refine List.nodup_append.2 ⟨hw.nodup, List.nodup_singleton k, ?_⟩
    rintro x hx y hy rfl
    rw [List.mem_singleton.1 hy] at hx
    exact hchain hx
  linked := by
    refine hw.linked.append (.singleton k) ?_
    intro last hlast first hfirst
    obtain rfl : k = first := by simpa using hfirst
    exact hleads last hlast (by rw [hentry]; rfl)
  sorted := hw.sorted
  circles := hw.circles

end Walk

namespace Graph

variable {g : Graph}

/-- What a visit of `k` does to a walk in good order. -/
structure Visited (g : Graph) (k : Key) (w w' : Walk) : Prop where
  proper : Walk.Proper g w'
  grows : Walk.Grows w w'
  listed : (g.own? k).isSome →
    k ∈ w'.order ∨ k ∈ w.chain ∧ ∃ chain, .cycle (w.chain.getLast?.getD k) k chain ∈ w'.errors

/-- Looking at a dependency of `k`, where the chain ends, serves it, if the visits it leads to do what they should. -/
theorem follow_spec {visit : Walk → Key → Walk} {k : Key} {entry : Entry} (hentry : g.own? k = some entry) {w : Walk}
    {d : Dependency} (hd : d ∈ entry.dependencies) (hw : Walk.Proper g w) (hlast : w.chain.getLast? = some k)
    (hvisit : w.Leads g d.key → Visited g d.key w (visit w d.key)) :
    Walk.Proper g (g.follow visit k w d) ∧ Walk.Grows w (g.follow visit k w d) ∧
      g.Served (g.follow visit k w d).errors k (g.follow visit k w d).order d := by
  unfold follow Served
  rcases horigin : g.origin? d.key with _ | origin <;> dsimp only
  · split
    · next hmissing => exact ⟨hw, .refl w, by simpa [or_assoc] using Or.inl hmissing⟩
    · next => exact ⟨hw.report nofun, .report w _, .inr (.inr (Walk.mem_errors_report.2 (.inr rfl)))⟩
  · split
    · next hlazy => exact ⟨hw, .refl w, Or.inl hlazy⟩
    · next hlazy =>
      have hleads : w.Leads g d.key := by
        intro last hmem hown
        obtain rfl : k = last := Option.some.inj (hlast.symm.trans hmem)
        exact ⟨entry, hentry, d, hd, rfl, by simpa using hlazy, by simp [contains, horigin], hown⟩
      obtain ⟨hproper, hgrows, hlisted⟩ := hvisit hleads
      refine ⟨hproper, hgrows, Or.inr ?_⟩
      rcases hown : g.own? d.key with _ | own
      · exact Or.inl rfl
      · refine Or.inr ((hlisted (by rw [hown]; rfl)).imp_right fun ⟨_, chain, hcycle⟩ => ⟨chain, ?_⟩)
        rwa [hlast] at hcycle

theorem foldl_follow_spec {visit : Walk → Key → Walk} {k : Key} {entry : Entry} (hentry : g.own? k = some entry)
    (ds : List Dependency) (hds : ds ⊆ entry.dependencies) (chain : List Key) {w : Walk}
    (hvisit : ∀ v d, Walk.Proper g v → v.chain = chain ++ [k] → v.Leads g d → Visited g d v (visit v d))
    (hw : Walk.Proper g w) (hchain : w.chain = chain ++ [k]) :
    Walk.Proper g (ds.foldl (g.follow visit k) w) ∧ Walk.Grows w (ds.foldl (g.follow visit k) w) ∧
      ∀ d ∈ ds, g.Served (ds.foldl (g.follow visit k) w).errors k (ds.foldl (g.follow visit k) w).order d := by
  induction ds generalizing w with
  | nil => exact ⟨hw, .refl w, fun _ hd => nomatch hd⟩
  | cons d ds ih =>
      obtain ⟨hd, hds⟩ := List.cons_subset.1 hds
      obtain ⟨hproper, hgrows, hserved⟩ := follow_spec hentry hd hw (by rw [hchain, List.getLast?_concat])
        (hvisit w d.key hw hchain)
      obtain ⟨hproper', hgrows', hserved'⟩ := ih hds hproper (hgrows.chain.trans hchain)
      refine ⟨hproper', hgrows.trans hgrows', fun d' hd' => ?_⟩
      rcases List.mem_cons.1 hd' with rfl | hd'
      · exact hserved.mono hgrows'.errors.subset hgrows'.order
      · exact hserved' d' hd'

/-- Coming to an own binding for the first time, a walk follows what it needs before it lists it. -/
theorem visit_of_fresh {k : Key} {entry : Entry} {w : Walk} (hentry : g.own? k = some entry) (hchain : k ∉ w.chain)
    (hvisited : k ∉ w.visited) (depth : Nat) {left : Walk}
    (hleft : entry.dependencies.foldl (g.follow (g.visit depth) k)
      { w with visited := k :: w.visited, chain := w.chain ++ [k] } = left) :
    g.visit (depth + 1) w k = { left with chain := w.chain, order := left.order ++ [k] } := by
  subst hleft
  simp [visit, hentry, hchain, hvisited]

theorem visit_of_visited {k : Key} {entry : Entry} {w : Walk} (hentry : g.own? k = some entry) (hchain : k ∉ w.chain)
    (hvisited : k ∈ w.visited) (depth : Nat) : g.visit (depth + 1) w k = w := by
  simp [visit, hentry, hchain, hvisited]

theorem visit_of_own?_eq_none {k : Key} (hown : g.own? k = none) (depth : Nat) (w : Walk) : g.visit depth w k = w := by
  cases depth with
  | zero => rfl
  | succ depth => simp [visit, hown]

theorem chain_visit (g : Graph) (depth : Nat) (w : Walk) (k : Key) : (g.visit depth w k).chain = w.chain := by
  cases depth with
  | zero => rfl
  | succ depth =>
      unfold visit
      split
      · rfl
      · split
        · rfl
        · split <;> rfl

theorem chain_follow (g : Graph) (depth : Nat) (k : Key) (w : Walk) (d : Dependency) :
    (g.follow (g.visit depth) k w d).chain = w.chain := by
  unfold follow
  split
  · split <;> rfl
  · split
    · rfl
    · exact g.chain_visit depth w d.key

/-- What may be missing is left out where it is not in sight. -/
theorem follow_of_missing {d : Dependency} (hsight : g.contains d.key = false) (hoptional : d.isOptional = true)
    (visit : Walk → Key → Walk) (k : Key) (w : Walk) : g.follow visit k w d = w := by
  have horigin : g.origin? d.key = none := by simpa [contains] using hsight
  simp [follow, horigin, hoptional]

theorem follow_of_contains {d : Dependency} (hsight : g.contains d.key = true) (visit : Walk → Key → Walk) (k : Key)
    (w : Walk) : g.follow visit k w d = if d.isLazy then w else visit w d.key := by
  obtain ⟨origin, horigin⟩ := Option.isSome_iff_exists.1 hsight
  simp [follow, horigin]

/-- A visit within a depth that the chain leaves room for. -/
theorem visit_spec (depth : Nat) {w : Walk} (k : Key) (hw : Walk.Proper g w)
    (hdepth : g.entries.length < depth + w.chain.length) (hleads : w.Leads g k) : Visited g k w (g.visit depth w k) := by
  induction depth generalizing w k with
  | zero => exact absurd hw.length_le (by omega)
  | succ depth ih =>
      unfold visit
      split
      · next hnone => exact ⟨hw, .refl w, fun hsome => by simp [hnone] at hsome⟩
      · next entry hentry =>
        have hown : (g.own? k).isSome := by rw [hentry]; rfl
        split
        · next hchain =>
          refine ⟨hw.report ?_, .report w _, fun _ => .inr ⟨hchain, _, Walk.mem_errors_report.2 (.inr rfl)⟩⟩
          rintro source target chain ⟨⟩
          exact hw.circle hchain hown hleads
        · next hchain =>
          split
          · next hvisited => exact ⟨hw, .refl w, fun _ => .inl (((hw.visited k).1 hvisited).resolve_left hchain)⟩
          · next hfresh =>
            obtain ⟨hproper, hgrows, hserved⟩ := foldl_follow_spec hentry entry.dependencies (List.Subset.refl _) w.chain
              (fun v d hv hvchain => ih d hv (by rw [hvchain, List.length_append, List.length_singleton]; omega))
              (hw.enter hentry hchain hleads) rfl
            refine ⟨⟨?_, hw.own, hw.nodup, hw.linked, .snoc hproper.sorted hentry hserved, hproper.circles⟩,
              ⟨rfl, ?_, hgrows.errors⟩, ?_⟩
            · intro x
              simp only [hproper.visited, hgrows.chain, List.mem_append, List.mem_singleton]
              tauto
            · intro x hx
              exact List.mem_append_left _ (hgrows.order hx)
            · exact fun _ => .inl (List.mem_append_right _ (List.mem_singleton_self k))

theorem foldl_visit_spec (ks : List Key) {w : Walk} (hw : Walk.Proper g w) (hchain : w.chain = []) :
    Walk.Proper g (ks.foldl (g.visit g.depth) w) ∧ Walk.Grows w (ks.foldl (g.visit g.depth) w) ∧
      ∀ k ∈ ks, (g.own? k).isSome → k ∈ (ks.foldl (g.visit g.depth) w).order := by
  induction ks generalizing w with
  | nil => exact ⟨hw, .refl w, fun _ hk => nomatch hk⟩
  | cons k ks ih =>
      have hvisit := visit_spec g.depth k hw (by simp [depth, hchain]) (by simp [Walk.Leads, hchain])
      obtain ⟨hproper, hgrows, hlisted⟩ := ih hvisit.proper (hvisit.grows.chain.trans hchain)
      refine ⟨hproper, hvisit.grows.trans hgrows, fun k' hk' hown => ?_⟩
      rcases List.mem_cons.1 hk' with rfl | hk'
      · refine hgrows.order ((hvisit.listed hown).resolve_right ?_)
        rintro ⟨hmem, -⟩
        rw [hchain] at hmem
        cases hmem
      · exact hlisted k' hk' hown

/-- A walk lists every own binding after what it needs, but for the needs that it reports to lead back. -/
theorem proper_walk (g : Graph) : Walk.Proper g g.walk ∧ ∀ k, (g.own? k).isSome → k ∈ g.walk.order := by
  obtain ⟨hproper, -, hlisted⟩ := foldl_visit_spec g.sortedKeys (Walk.Proper.start g) rfl
  refine ⟨hproper, fun k hown => hlisted k ?_ hown⟩
  simpa [sortedKeys, Key.sort] using own?_isSome_iff.1 hown

/-- No own binding needs itself, not even through others, but for needs that are reported. -/
theorem not_circular_remains (g : Graph) (k : Key) : ¬ Relation.TransGen (g.Remains g.problems) k k := by
  intro hpath
  obtain ⟨hproper, hlisted⟩ := g.proper_walk
  obtain ⟨d, ⟨⟨entry, hentry, -⟩, -⟩, -⟩ := Relation.TransGen.head'_iff.1 hpath
  exact hproper.sorted.not_circular (hlisted k (by simp [hentry])) hpath

/-- In a graph without problems no own binding needs itself, not even through others. -/
theorem not_circular_of_problems_eq_nil (h : g.problems = []) (k : Key) : ¬ Relation.TransGen g.Needs k k := by
  intro hpath
  refine g.not_circular_remains k (hpath.lift id fun _ _ hneeds => ⟨hneeds, fun chain => ?_⟩)
  rw [h]
  exact List.not_mem_nil

/-- In a graph without problems every dependency is in sight, or may be missing, or is in conflict. -/
theorem in_sight_of_problems_eq_nil (h : g.problems = []) {k : Key} {entry : Entry} (hentry : g.own? k = some entry)
    {d : Dependency} (hd : d ∈ entry.dependencies) :
    g.contains d.key = true ∨ d.isOptional = true ∨ d.key ∈ g.conflicted := by
  obtain ⟨hproper, hlisted⟩ := g.proper_walk
  have hserved := hproper.sorted.served (hlisted k (by simp [hentry])) hentry d hd
  unfold Served at hserved
  rcases horigin : g.origin? d.key with _ | origin
  · simp only [horigin, show g.walk.errors = [] from h, List.not_mem_nil, or_false] at hserved
    exact Or.inr hserved
  · exact Or.inl (by simp [contains, horigin])

end Graph

end Injection
