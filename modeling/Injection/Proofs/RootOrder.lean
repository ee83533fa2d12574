import Injection.Proofs.Reports

/-!
What a walk from one root lists. In a graph that links it finds nothing wrong, and it lists the own keys that the root
comes to along needs that are to be met at once: all of them, no others, each once and after what it needs. Nothing
hangs below a key that some parent brings, and a key out of sight is missing.
-/

namespace Injection

namespace Graph

variable {g : Graph}

/-! ### Visits from one key on -/

/-- What an own binding needs stands before it, unless it is reported. -/
theorem Sorted.mem_before {errors : List LinkError} {ks before later : List Key} {k d : Key} (h : g.Sorted errors ks)
    (hsplit : ks = before ++ k :: later) (hremains : g.Remains errors k d) : d ∈ before := by
  induction h generalizing later with
  | nil => simp at hsplit
  | snoc _ hown hserved ih =>
      rcases List.eq_nil_or_concat later with rfl | ⟨later, last, rfl⟩
      · obtain ⟨rfl, hlast⟩ := List.append_inj' hsplit rfl
        obtain rfl := List.singleton_inj.1 hlast
        exact Served.mem_of_remains hown hserved hremains
      · rw [List.concat_eq_append, ← List.cons_append, ← List.append_assoc] at hsplit
        exact ih (List.append_inj' hsplit rfl).1

/-- A relation between walks that holds whatever a visit goes through, if `P` holds of all that it lists. -/
structure Preserved (P : Key → Prop) (R : Walk → Walk → Prop) : Prop where
  refl : ∀ w, R w w
  trans : ∀ {w w' w''}, R w w' → R w' w'' → R w w''
  report : ∀ w e, R w (w.report e)
  leave : ∀ {k w w'}, P k → R { w with visited := k :: w.visited, chain := w.chain ++ [k] } w' →
    R w { w' with chain := w.chain, order := w'.order ++ [k] }

namespace Preserved

variable {P : Key → Prop} {R : Walk → Walk → Prop} (h : Preserved P R)
include h

/-- Looking at a dependency comes to no key but what is needed at once. -/
theorem follow {visit : Walk → Key → Walk} {k : Key} {entry : Entry} (hentry : g.own? k = some entry) {w : Walk}
    {d : Dependency} (hd : d ∈ entry.dependencies)
    (hvisit : ((g.own? d.key).isSome → g.Needs k d.key) → R w (visit w d.key)) : R w (g.follow visit k w d) := by
  unfold Graph.follow
  rcases horigin : g.origin? d.key with _ | origin <;> dsimp only
  · split
    · exact h.refl w
    · exact h.report w _
  · split
    · exact h.refl w
    · next hlazy =>
      refine hvisit fun hown => ⟨entry, hentry, d, hd, rfl, ?_, ?_, hown⟩
      · exact Bool.not_eq_true _ ▸ hlazy
      · rw [contains, horigin, Option.isSome_some]

theorem foldl_follow {visit : Walk → Key → Walk} {k : Key} {entry : Entry} (hentry : g.own? k = some entry)
    (ds : List Dependency) (hds : ds ⊆ entry.dependencies) (w : Walk)
    (hvisit : ∀ v d, ((g.own? d).isSome → g.Needs k d) → R v (visit v d)) : R w (ds.foldl (g.follow visit k) w) := by
  induction ds generalizing w with
  | nil => exact h.refl w
  | cons d ds ih =>
      obtain ⟨hd, hds⟩ := List.cons_subset.1 hds
      exact h.trans (h.follow hentry hd (hvisit w d.key)) (ih hds _)

/-- A visit does not leave what is closed under needs that are to be met at once. -/
theorem visit (hclosed : ∀ k d, P k → g.Needs k d → P d) (depth : Nat) (w : Walk) {k : Key}
    (hk : (g.own? k).isSome → P k) : R w (g.visit depth w k) := by
  induction depth generalizing w k with
  | zero => exact h.refl w
  | succ depth ih =>
      unfold Graph.visit
      split
      · exact h.refl w
      · next entry hentry =>
        have hk := hk (by rw [hentry, Option.isSome_some])
        split
        · exact h.report w _
        · split
          · exact h.refl w
          · refine h.leave hk (h.foldl_follow hentry _ (List.Subset.refl _) _ fun v d hneeds => ih v fun hown => ?_)
            exact hclosed k d hk (hneeds hown)

end Preserved

/-- What a walk goes on to list: only keys that `P` holds of, and each binding it comes to once it leaves it. -/
structure Lists (P : Key → Prop) (w w' : Walk) : Prop where
  chain : w'.chain = w.chain
  within : ∀ k ∈ w'.order, k ∈ w.order ∨ P k
  each : (w.order ++ w.chain).Perm w.visited → (w'.order ++ w'.chain).Perm w'.visited

namespace Lists

variable {P : Key → Prop} {w w' w'' : Walk}

theorem refl (w : Walk) : Lists P w w := ⟨rfl, fun _ hk => .inl hk, id⟩

theorem trans (h : Lists P w w') (h' : Lists P w' w'') : Lists P w w'' where
  chain := h'.chain.trans h.chain
  within k hk := (h'.within k hk).elim (h.within k) .inr
  each hw := h'.each (h.each hw)

theorem report (w : Walk) (e : LinkError) : Lists P w (w.report e) := ⟨rfl, fun _ hk => .inl hk, id⟩

/-- A binding that is left is listed, after all that was listed since it was entered. -/
theorem leave {k : Key} (hk : P k)
    (h : Lists P { w with visited := k :: w.visited, chain := w.chain ++ [k] } w') :
    Lists P w { w' with chain := w.chain, order := w'.order ++ [k] } where
  chain := rfl
  within x hx := by
    rcases List.mem_append.1 hx with hx | hx
    · exact h.within x hx
    · exact .inr (List.mem_singleton.1 hx ▸ hk)
  each hw := by
    have hentered : (w.order ++ (w.chain ++ [k])).Perm (k :: w.visited) := by
      rw [← List.append_assoc]
      exact (List.perm_append_singleton k _).trans (hw.cons k)
    have hleft := h.each hentered
    rw [h.chain] at hleft
    calc
      (w'.order ++ [k]) ++ w.chain = w'.order ++ ([k] ++ w.chain) := List.append_assoc _ _ _
      (w'.order ++ ([k] ++ w.chain)).Perm (w'.order ++ (w.chain ++ [k])) := List.perm_append_comm.append_left _
      (w'.order ++ (w.chain ++ [k])).Perm w'.visited := hleft

theorem preserved : Preserved P (Lists P) := ⟨refl, trans, report, leave⟩

end Lists

/-! ### Graphs without problems -/

/-- The keys listed for a root: those it comes to along the needs, each once and after what it needs, the root last. -/
structure Closure (needs : Key → Key → Prop) (root : Key) (ks : List Key) : Prop where
  nodup : ks.Nodup
  mem_iff : ∀ k, k ∈ ks ↔ Relation.ReflTransGen needs root k
  before : ∀ before k later, ks = before ++ k :: later → ∀ d, needs k d → d ∈ before
  last : ks.getLast? = some root

section

variable {root : Key}

theorem gaps_eq_nil (hproblems : g.problems = []) (k : Key) : g.gaps k = [] := by
  unfold gaps dependenciesOf
  rcases hentry : g.own? k with _ | entry
  · rfl
  · refine List.filterMap_eq_nil_iff.2 fun d hd => ?_
    have hsight := in_sight_of_problems_eq_nil hproblems hentry hd
    rw [gap?, if_pos hsight]

/-- Where a graph has no problems, no walk from one of its keys finds any. -/
theorem errors_visit_eq_nil (hproblems : g.problems = []) (root : Key) :
    (g.visit g.depth .start root).errors = [] := by
  refine List.eq_nil_iff_forall_not_mem.2 fun e he => ?_
  rcases hclosing : e.closing? with _ | need
  · obtain ⟨fresh, -, hcount⟩ := (Tallies.visit (g := g) hclosing g.depth .start root).count
    have hnone : fresh.flatMap g.gaps = [] :=
      List.flatMap_eq_nil_iff.2 fun k _ => gaps_eq_nil hproblems k
    rw [hnone] at hcount
    exact List.count_eq_zero.1 hcount he
  · rcases e with _ | ⟨source, target, chain⟩ | _
    case cycle =>
      have hvisit := visit_spec g.depth root (Walk.Proper.start g) (by simp [depth, Walk.start])
        (by simp [Walk.Leads, Walk.start])
      have hcircle := hvisit.proper.circles source target chain he
      exact not_circular_of_problems_eq_nil hproblems target
        (transGen_of_closed hcircle.two_le_length hcircle.head hcircle.last hcircle.linked)
    all_goals cases hclosing

theorem closure_visit (hproblems : g.problems = []) (hown : (g.own? root).isSome) :
    Closure g.Needs root (g.visit g.depth .start root).order := by
  have hvisit := visit_spec g.depth root (Walk.Proper.start g) (by simp [depth, Walk.start])
    (by simp [Walk.Leads, Walk.start])
  have hlists : Lists (Relation.ReflTransGen g.Needs root) .start (g.visit g.depth .start root) :=
    Lists.preserved.visit (fun _ _ hk hneeds => hk.tail hneeds) _ _ fun _ => .refl
  have hremains {k d : Key} (hneeds : g.Needs k d) : g.Remains (g.visit g.depth .start root).errors k d := by
    refine ⟨hneeds, fun chain => ?_⟩
    rw [errors_visit_eq_nil hproblems]
    exact List.not_mem_nil
  have hlisted : root ∈ (g.visit g.depth .start root).order := by
    refine (hvisit.listed hown).resolve_right ?_
    rintro ⟨hchain, -⟩
    cases hchain
  constructor
  case nodup =>
    have hvisited := (Tallies.visit (g := g) (e := .missing root none) rfl g.depth .start root).nodup List.nodup_nil
    have horder := (hlists.each (.refl _)).nodup_iff.2 hvisited
    exact (List.nodup_append.1 horder).1
  case mem_iff =>
    intro k
    constructor
    · intro hk
      exact (hlists.within k hk).resolve_left List.not_mem_nil
    · intro hpath
      induction hpath with
      | refl => exact hlisted
      | tail _ hneeds ih => exact hvisit.proper.sorted.mem_of_remains ih (hremains hneeds)
  case before =>
    intro before k later hsplit d hneeds
    exact hvisit.proper.sorted.mem_before hsplit (hremains hneeds)
  case last =>
    obtain ⟨entry, hentry⟩ := Option.isSome_iff_exists.1 hown
    rw [depth, visit_of_fresh hentry List.not_mem_nil List.not_mem_nil g.entries.length rfl]
    exact List.getLast?_concat

theorem rootOrder_of_contains (hproblems : g.problems = [])
    (hsight : g.contains root = true) : g.rootOrder root = .ok (g.visit g.depth .start root).order := by
  rw [rootOrder, if_pos hsight, Walk.result, errors_visit_eq_nil hproblems]

end

/-- What is listed for each key: for a bound key what it needs, nothing for a key that is only brought, and an error for
a key out of sight. -/
structure ListsRoots (registry : Registry) (g : Graph) : Prop where
  bound : ∀ root, registry.contains root = true → ∃ ks, g.rootOrder root = .ok ks ∧ Closure registry.Needs root ks
  brought : ∀ root, registry.contains root = false → g.contains root = true → g.rootOrder root = .ok []
  unseen : ∀ root, g.contains root = false → g.rootOrder root = .error [.missing root none]

/-- A graph that links lists for each root exactly what hangs below it, each key after what it needs. -/
theorem listsRoots_of_link {registry : Registry} {parents : List Container} {g : Graph}
    (h : link registry parents = .ok g) : ListsRoots registry g := by
  obtain ⟨hg, -, hproblems⟩ := link_eq_ok h
  have hown (root : Key) : (g.own? root).isSome = registry.contains root := by
    rw [hg, own?_assemble, Option.isSome_map]
    rfl
  constructor
  case bound =>
    intro root hbound
    have hsight : g.contains root = true := hg ▸ contains_assemble_of_contains hbound
    have hclosure := closure_visit hproblems ((hown root).trans hbound)
    have hneeds : g.Needs = registry.Needs := hg ▸ needs_assemble
    exact ⟨_, rootOrder_of_contains hproblems hsight, hneeds ▸ hclosure⟩
  case brought =>
    intro root hunbound hsight
    have hnone : g.own? root = none := by simpa [hunbound] using hown root
    rw [rootOrder_of_contains hproblems hsight, visit_of_own?_eq_none hnone]
    rfl
  case unseen =>
    intro root hunseen
    rw [rootOrder, hunseen]
    rfl

end Graph

namespace Lamps

def switch : Key := .ofType ⟨3, "Switch", .number⟩

def fuse : Key := .ofType ⟨4, "Fuse", .number⟩

def wire (k : Key) (dependencies : List Dependency) : Binding :=
  ⟨k, .given (.made k.type 0 (.given "")), dependencies, .fail, true⟩

/-- A chandelier below the hall: its switch and itself need the fuse, which looks back at it only later. -/
def wiring : Registry :=
  ⟨[wire chandelier [.required lamp, .required switch, .required fuse, (Dependency.required candle).optional],
    wire fuse [.deferred chandelier], wire switch [(Dependency.required fuse).optional]]⟩

end Lamps

open Lamps in
theorem Graph.listsRoots_wiring : ∃ g, link wiring [hall] = .ok g ∧
    g.rootOrder chandelier = .ok [fuse, switch, chandelier] ∧
    Closure wiring.Needs chandelier [fuse, switch, chandelier] ∧
    g.rootOrder lamp = .ok [] ∧ g.rootOrder candle = .error [.missing candle none] := by
  have hlink : link wiring [hall] = .ok (assemble wiring (inherited wiring [hall])) := rfl
  have hroots := listsRoots_of_link hlink
  obtain ⟨ks, horder, hclosure⟩ := hroots.bound chandelier rfl
  obtain rfl : [fuse, switch, chandelier] = ks := Except.ok.inj horder
  exact ⟨_, hlink, horder, hclosure, hroots.brought lamp rfl rfl, hroots.unseen candle rfl⟩

end Injection
