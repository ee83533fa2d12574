import Injection.Proofs.RootOrder

/-!
The order of all own bindings. One walk goes over all of them, with what was visited shared between its starts. It comes
to the same as walks of their own from each start, put one after the other, each without what the walks before it list:
what is listed already has all that it needs listed as well, so that passing it over leaves the others in their order.
-/

namespace Injection

namespace Graph

/-- The lists for some roots, one after the other, each without the keys that are listed already. -/
def gatherRoots (g : Graph) (roots listed : List Key) : Except (List LinkError) (List Key) :=
  roots.foldlM (fun listed root => do return listed ++ (← g.rootOrder root).filter (· ∉ listed)) listed

/-- An order of all own keys, each once and after what it needs; it is the lists for the single keys put together. -/
structure ListsAll (registry : Registry) (g : Graph) (ks : List Key) : Prop where
  order : g.constructionOrder = .ok ks
  nodup : ks.Nodup
  mem_iff : ∀ k, k ∈ ks ↔ registry.contains k = true
  before : ∀ before k later, ks = before ++ k :: later → ∀ d, registry.Needs k d → d ∈ before
  gathered : g.gatherRoots g.sortedKeys [] = .ok ks

/-! ### A walk that goes on after others -/

/-- A walk goes on to list and to visit only keys that `P` holds of. -/
structure Adds (P : Key → Prop) (w w' : Walk) : Prop where
  order : ∃ fresh, w'.order = w.order ++ fresh ∧ ∀ k ∈ fresh, P k
  kept : w.visited ⊆ w'.visited
  within : ∀ k ∈ w'.visited, k ∈ w.visited ∨ P k

namespace Adds

variable {P : Key → Prop} {w w' w'' : Walk}

theorem refl (w : Walk) : Adds P w w := ⟨⟨[], by simp, nofun⟩, List.Subset.refl _, fun _ => .inl⟩

theorem trans (h : Adds P w w') (h' : Adds P w' w'') : Adds P w w'' where
  order := by
    obtain ⟨fresh, horder, hfresh⟩ := h.order
    obtain ⟨fresh', horder', hfresh'⟩ := h'.order
    refine ⟨fresh ++ fresh', by rw [horder', horder, List.append_assoc], fun k hk => ?_⟩
    exact (List.mem_append.1 hk).elim (hfresh k) (hfresh' k)
  kept := List.Subset.trans h.kept h'.kept
  within k hk := (h'.within k hk).elim (h.within k) .inr

theorem report (w : Walk) (e : LinkError) : Adds P w (w.report e) :=
  ⟨⟨[], by simp [Walk.report], nofun⟩, List.Subset.refl _, fun _ => .inl⟩

theorem leave {k : Key} (hk : P k) (h : Adds P { w with visited := k :: w.visited, chain := w.chain ++ [k] } w') :
    Adds P w { w' with chain := w.chain, order := w'.order ++ [k] } where
  order := by
    obtain ⟨fresh, horder, hfresh⟩ := h.order
    refine ⟨fresh ++ [k], by rw [← List.append_assoc, ← horder], fun x hx => ?_⟩
    rcases List.mem_append.1 hx with hx | hx
    · exact hfresh x hx
    · exact List.mem_singleton.1 hx ▸ hk
  kept := fun x hx => h.kept (List.mem_cons_of_mem k hx)
  within x hx := by
    rcases h.within x hx with hx | hx
    · exact (List.mem_cons.1 hx).symm.imp_right fun (heq : x = k) => heq ▸ hk
    · exact .inr hx

theorem preserved : Preserved P (Adds P) := ⟨refl, trans, report, leave⟩

end Adds

/-- A walk that goes on where `old` is listed, beside a walk that was started anew: it comes to what the new one does,
but passes over what is old. -/
structure Shares (old : List Key) (w v : Walk) : Prop where
  order : w.order = old ++ v.order.filter (· ∉ old)
  chain : w.chain = v.chain
  visited : ∀ k, k ∈ w.visited ↔ k ∈ v.visited ∨ k ∈ old
  fresh : ∀ k ∈ w.chain, k ∉ old

namespace Shares

variable {g : Graph} {old : List Key} {w v v' : Walk}

/-- What is old is passed over, whatever the new walk has to do for it. -/
theorem pass (h : Shares old w v) (hadds : Adds (· ∈ old) v v') (hchain : v'.chain = v.chain) : Shares old w v' where
  order := by
    obtain ⟨fresh, horder, hfresh⟩ := hadds.order
    have hnone : fresh.filter (· ∉ old) = [] := by simpa [List.filter_eq_nil_iff] using hfresh
    rw [h.order, horder, List.filter_append, hnone, List.append_nil]
  chain := h.chain.trans hchain.symm
  visited k := by
    rw [h.visited]
    constructor
    · exact Or.imp_left fun hk => hadds.kept hk
    · exact fun hk => hk.elim (hadds.within k) .inr
  fresh := h.fresh

theorem enter (h : Shares old w v) {k : Key} (hk : k ∉ old) :
    Shares old { w with visited := k :: w.visited, chain := w.chain ++ [k] }
      { v with visited := k :: v.visited, chain := v.chain ++ [k] } where
  order := h.order
  chain := by rw [h.chain]
  visited x := by simp only [List.mem_cons, h.visited, or_assoc]
  fresh x hx := by
    rcases List.mem_append.1 hx with hx | hx
    · exact h.fresh x hx
    · exact List.mem_singleton.1 hx ▸ hk

theorem leave {w' : Walk} (h : Shares old w v) {k : Key} (hk : k ∉ old) (hleft : Shares old w' v') :
    Shares old { w' with chain := w.chain, order := w'.order ++ [k] }
      { v' with chain := v.chain, order := v'.order ++ [k] } where
  order := by simp [hleft.order, hk]
  chain := h.chain
  visited := hleft.visited
  fresh := h.fresh

theorem follow {visit : Walk → Key → Walk} (hvisit : ∀ w v d, Shares old w v → Shares old (visit w d) (visit v d))
    (h : Shares old w v) (k : Key) (d : Dependency) : Shares old (g.follow visit k w d) (g.follow visit k v d) := by
  unfold Graph.follow
  split
  · split
    · exact h
    · exact ⟨h.order, h.chain, h.visited, h.fresh⟩
  · split
    · exact h
    · exact hvisit w v d.key h

theorem foldl_follow {visit : Walk → Key → Walk}
    (hvisit : ∀ w v d, Shares old w v → Shares old (visit w d) (visit v d)) (k : Key) (ds : List Dependency)
    (h : Shares old w v) : Shares old (ds.foldl (g.follow visit k) w) (ds.foldl (g.follow visit k) v) := by
  induction ds generalizing w v with
  | nil => exact h
  | cons d ds ih => exact ih (h.follow hvisit k d)

/-- Both walks visit the same next, if all that the old keys need is old as well. -/
theorem visit (hclosed : ∀ k d, k ∈ old → g.Needs k d → d ∈ old) (depth : Nat) (h : Shares old w v) (k : Key) :
    Shares old (g.visit depth w k) (g.visit depth v k) := by
  induction depth generalizing w v k with
  | zero => exact h
  | succ depth ih =>
      rcases hentry : g.own? k with _ | entry
      · rwa [visit_of_own?_eq_none hentry, visit_of_own?_eq_none hentry]
      by_cases hchain : k ∈ v.chain
      · have hchain' : k ∈ w.chain := h.chain ▸ hchain
        simp only [Graph.visit, hentry, if_pos hchain, if_pos hchain']
        exact ⟨h.order, h.chain, h.visited, h.fresh⟩
      have hchain' : k ∉ w.chain := h.chain ▸ hchain
      by_cases hvisited : k ∈ w.visited
      · rw [visit_of_visited hentry hchain' hvisited]
        rcases (h.visited k).1 hvisited with hnew | hold
        · rwa [visit_of_visited hentry hchain hnew]
        · exact h.pass (Adds.preserved.visit hclosed _ v fun _ => hold) (g.chain_visit _ v k)
      · have hfresh : k ∉ v.visited ∧ k ∉ old := not_or.1 ((h.visited k).not.1 hvisited)
        rw [visit_of_fresh hentry hchain' hvisited depth rfl, visit_of_fresh hentry hchain hfresh.1 depth rfl]
        exact h.leave hfresh.2 (foldl_follow (fun _ _ d hwv => ih hwv d) k entry.dependencies (h.enter hfresh.2))

end Shares

/-! ### One walk over all own bindings -/

variable {g : Graph}

/-- Between two starts, a walk that found nothing wrong goes on as a walk of its own, but for what is listed already. -/
theorem order_visit {w : Walk} (hw : Walk.Proper g w) (hchain : w.chain = []) (herrors : w.errors = []) (root : Key) :
    (g.visit g.depth w root).order =
      w.order ++ (g.visit g.depth .start root).order.filter (· ∉ w.order) := by
  have hclosed : ∀ k d, k ∈ w.order → g.Needs k d → d ∈ w.order := by
    intro k d hk hneeds
    refine hw.sorted.mem_of_remains hk ⟨hneeds, fun chain => ?_⟩
    rw [herrors]
    exact List.not_mem_nil
  have hstart : Shares w.order w .start := by
    constructor
    case order => simp [Walk.start]
    case chain => exact hchain
    case visited => simp [hw.visited, hchain, Walk.start]
    case fresh => simp [hchain]
  exact (hstart.visit hclosed g.depth root).order

/-- From root to root, one walk lists what walks of their own list one after the other, and no key twice. -/
theorem gatherRoots_eq (hproblems : g.problems = []) (roots : List Key) (hroots : ∀ k ∈ roots, (g.own? k).isSome)
    (hsight : ∀ k ∈ roots, g.contains k = true) {w : Walk} (hw : Walk.Proper g w) (hchain : w.chain = [])
    (hnodup : w.order.Nodup) (herrors : (roots.foldl (g.visit g.depth) w).errors = []) :
    g.gatherRoots roots w.order = .ok (roots.foldl (g.visit g.depth) w).order ∧
      (roots.foldl (g.visit g.depth) w).order.Nodup := by
  induction roots generalizing w with
  | nil => exact ⟨rfl, hnodup⟩
  | cons root roots ih =>
      obtain ⟨hroot, hroots⟩ := List.forall_mem_cons.1 hroots
      obtain ⟨hseen, hsight⟩ := List.forall_mem_cons.1 hsight
      have hvisit := visit_spec g.depth root hw (by simp [depth, hchain]) (by simp [Walk.Leads, hchain])
      have hchain' := hvisit.grows.chain.trans hchain
      -- nothing is wrong at the end, so nothing was wrong on the way
      have herrors' : w.errors = [] := by
        have hlater := (foldl_visit_spec roots hvisit.proper hchain').2.1.errors
        exact List.prefix_nil.1 (herrors ▸ hvisit.grows.errors.trans hlater)
      have horder := order_visit hw hchain herrors' root
      have hnodup' : (g.visit g.depth w root).order.Nodup := by
        rw [horder]
        refine List.nodup_append.2 ⟨hnodup, (closure_visit hproblems hroot).nodup.filter _, ?_⟩
        rintro k hk l hl rfl
        exact of_decide_eq_true (List.mem_filter.1 hl).2 hk
      obtain ⟨hgathered, hlast⟩ := ih hroots hsight hvisit.proper hchain' hnodup' herrors
      refine ⟨?_, hlast⟩
      rw [← List.foldl_cons] at hgathered
      simp only [gatherRoots, List.foldlM_cons, rootOrder_of_contains hproblems hseen] at hgathered ⊢
      rw [horder] at hgathered
      exact hgathered

theorem listsAll_walk {registry : Registry} {parents : List Container} (h : link registry parents = .ok g) :
    ListsAll registry g g.walk.order := by
  obtain ⟨hg, -, hproblems⟩ := link_eq_ok h
  have hown (k : Key) : (g.own? k).isSome = registry.contains k := by
    rw [hg, own?_assemble, Option.isSome_map]
    rfl
  have hsorted : ∀ k ∈ g.sortedKeys, (g.own? k).isSome := by
    intro k hk
    exact own?_isSome_iff.2 (by simpa [sortedKeys, Key.sort] using hk)
  obtain ⟨hgathered, hnodup⟩ := gatherRoots_eq hproblems g.sortedKeys hsorted
    (fun k hk => hg ▸ contains_assemble_of_contains ((hown k).symm.trans (hsorted k hk))) (Walk.Proper.start g) rfl
    List.nodup_nil hproblems
  obtain ⟨hproper, hlisted⟩ := g.proper_walk
  refine ⟨?order, hnodup, ?mem_iff, ?before, hgathered⟩
  case order => rw [constructionOrder, Walk.result, show g.walk.errors = [] from hproblems]
  case mem_iff =>
    intro k
    rw [← hown k]
    exact ⟨fun hk => mem_visited_walk.1 ((hproper.visited k).2 (.inr hk)), hlisted k⟩
  case before =>
    intro before k later hsplit d hneeds
    have hneeds : g.Needs k d := by
      rw [hg, needs_assemble]
      exact hneeds
    refine hproper.sorted.mem_before hsplit ⟨hneeds, fun chain => ?_⟩
    rw [show g.walk.errors = [] from hproblems]
    exact List.not_mem_nil

/-- A graph that links lists all own keys, each once and after what it needs, as the walks from single keys do. -/
theorem listsAll_of_link {registry : Registry} {parents : List Container} (h : link registry parents = .ok g) :
    ∃ ks, ListsAll registry g ks :=
  ⟨g.walk.order, listsAll_walk h⟩

end Graph

namespace Lamps

/-- A chandelier and a switch on the same fuse. -/
def twoOnOneFuse : Registry :=
  ⟨[wire switch [.required fuse, .required lamp], wire fuse [.deferred switch], wire chandelier [.required fuse]]⟩

end Lamps

open Lamps in
theorem Graph.listsAll_twoOnOneFuse : ∃ g, link twoOnOneFuse [hall] = .ok g ∧
    ListsAll twoOnOneFuse g [fuse, chandelier, switch] ∧
    g.rootOrder chandelier = .ok [fuse, chandelier] ∧ g.rootOrder switch = .ok [fuse, switch] := by
  have hlink : link twoOnOneFuse [hall] = .ok (assemble twoOnOneFuse (inherited twoOnOneFuse [hall])) := rfl
  obtain ⟨ks, hall⟩ := listsAll_of_link hlink
  obtain rfl : [fuse, chandelier, switch] = ks := Except.ok.inj hall.order
  exact ⟨_, hlink, hall, rfl, rfl⟩

end Injection
