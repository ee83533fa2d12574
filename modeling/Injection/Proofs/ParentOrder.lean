import Injection.Proofs.Enumeration

/-!
Parents in any order. Candidates are gathered in the order of the parents, and of a candidate that wins only the number
of the first parent is kept that leads to it. Who wins, though, goes by the set of the owners; so linking below parents
that are ordered otherwise, or repeated, puts the same bindings of the same owners in sight and finds the same faults.
-/

namespace Injection

namespace Container

/-! ### Containers each once -/

theorem once_cons (o : Container) (os : List Container) : once (o :: os) = o :: once (os.filter (·.id ≠ o.id)) := by
  simp [once, List.eraseDupsBy_cons]

/-- What holds of no containers, and of some if it holds of those among them with other numbers than the first. -/
theorem once_induction {P : List Container → Prop} (nil : P [])
    (cons : ∀ o os, P (os.filter (·.id ≠ o.id)) → P (o :: os)) (os : List Container) : P os := by
  induction hlength : os.length using Nat.strongRecOn generalizing os with
  | _ n ih =>
      rcases os with _ | ⟨o, os⟩
      · exact nil
      · have hle := List.length_filter_le (·.id ≠ o.id) os
        exact cons o os (ih _ (by simp only [List.length_cons] at hlength; omega) _ rfl)

theorem mem_of_mem_once {os : List Container} {o : Container} (h : o ∈ once os) : o ∈ os := by
  induction os using once_induction with
  | nil => exact h
  | cons p os ih =>
      rw [once_cons] at h
      rcases List.mem_cons.1 h with rfl | h
      · exact List.mem_cons_self
      · exact List.mem_cons_of_mem _ (List.mem_filter.1 (ih h)).1

theorem mem_once {os : List Container} (h : ∀ o ∈ os, ∀ p ∈ os, o.id = p.id → o = p) {o : Container} :
    o ∈ once os ↔ o ∈ os := by
  refine ⟨mem_of_mem_once, fun ho => ?_⟩
  induction os using once_induction with
  | nil => exact ho
  | cons p os ih =>
      rw [once_cons]
      by_cases hid : o.id = p.id
      · exact List.mem_cons.2 (.inl (h o ho p List.mem_cons_self hid))
      · have hmem : o ∈ os.filter (·.id ≠ p.id) :=
          List.mem_filter.2 ⟨(List.mem_cons.1 ho).resolve_left fun heq => hid (congrArg id heq), by simpa using hid⟩
        refine List.mem_cons_of_mem _ (ih (fun o ho q hq => ?_) hmem)
        exact h o (List.mem_cons_of_mem _ (List.mem_filter.1 ho).1) q (List.mem_cons_of_mem _ (List.mem_filter.1 hq).1)

theorem nodup_once (os : List Container) : ((once os).map (·.id)).Nodup := by
  induction os using once_induction with
  | nil => exact List.nodup_nil
  | cons o os ih =>
      rw [once_cons, List.map_cons]
      refine List.nodup_cons.2 ⟨fun hmem => ?_, ih⟩
      obtain ⟨p, hp, hid⟩ := List.mem_map.1 hmem
      have hother := (List.mem_filter.1 (mem_of_mem_once hp)).2
      simp [hid] at hother

/-! ### Contenders -/

end Container

theorem Graph.only_eq_some_iff {α : Type} {as : List α} {a : α} : only as = some a ↔ as = [a] := by
  match as with
  | [] => simp [only]
  | [_] => simp [only]
  | _ :: _ :: _ => simp [only]

theorem Graph.only_eq_of_perm {α : Type} {as bs : List α} (h : as.Perm bs) : only as = only bs := by
  ext a
  rw [only_eq_some_iff, only_eq_some_iff]
  constructor
  · rintro rfl
    exact List.perm_singleton.1 h.symm
  · rintro rfl
    exact List.perm_singleton.1 h

namespace Container

/-- Which of different containers prevails does not depend on their order. -/
theorem prevailing_eq_of_perm {os os' : List Container} (h : os.Perm os') (k : Key) :
    prevailing k os = prevailing k os' := by
  rw [prevailing, prevailing, Graph.only_eq_of_perm h, Graph.only_eq_of_perm (h.filter _),
    Graph.only_eq_of_perm (h.filter (·.policy? k ≠ some .ignore))]

section

variable {P : Container → Prop} {parents parents' : List Container} {k : Key}

/-- The container whose binding is in effect is the container itself or an ancestor. -/
theorem Rooted.reaches_of_effective? {c o : Container} (h : c.Rooted) (ho : c.effective? k = some o) : c.Reaches o := by
  obtain ⟨b, -, howner, -⟩ := h.owner?_of_effective? ho
  exact (owner?_spec howner).1

/-- Contenders are just those whose bindings are in effect for some parent. -/
theorem mem_contenders (hfamily : Family P) (hrooted : ∀ c, P c → c.Rooted) (hparents : ∀ p ∈ parents, P p)
    {o : Container} : o ∈ contenders parents k ↔ ∃ p ∈ parents, p.effective? k = some o := by
  have hmember {o : Container} (ho : o ∈ parents.filterMap (·.effective? k)) : P o := by
    obtain ⟨p, hp, heffective⟩ := List.mem_filterMap.1 ho
    exact hfamily.of_reaches (hparents p hp) ((hrooted p (hparents p hp)).reaches_of_effective? heffective)
  rw [contenders, mem_once fun o ho p hp => hfamily.unique o p (hmember ho) (hmember hp), List.mem_filterMap]

theorem nodup_contenders (parents : List Container) (k : Key) : ((contenders parents k).map (·.id)).Nodup :=
  nodup_once _

theorem contenders_perm (hfamily : Family P) (hrooted : ∀ c, P c → c.Rooted) (hparents : ∀ p ∈ parents, P p)
    (hsame : ∀ p, p ∈ parents ↔ p ∈ parents') (k : Key) : (contenders parents k).Perm (contenders parents' k) := by
  have hparents' : ∀ p ∈ parents', P p := fun p hp => hparents p ((hsame p).2 hp)
  refine (List.perm_ext_iff_of_nodup (nodup_contenders _ k).of_map (nodup_contenders _ k).of_map).2 fun o => ?_
  rw [mem_contenders hfamily hrooted hparents, mem_contenders hfamily hrooted hparents']
  simp only [hsame]

end

end Container

/-- The key in conflict, if the error reports one. -/
def LinkError.contested? : LinkError → Option Key
  | .conflict k _ => some k
  | _ => none

theorem LinkError.contested?_eq_none {e : LinkError} (h : e.isConflict = false) : e.contested? = none := by
  rcases e with _ | _ | _
  · rfl
  · rfl
  · cases h

namespace Graph

open Container

/-! ### What is the same below the same parents -/

/-- Graphs of a registry below parents that put the same in sight: for each key the same binding of the same owner. -/
structure SameSight (registry : Registry) (parents parents' : List Container) (g g' : Graph) : Prop where
  visible : g.visibleKeys.Perm g'.visibleKeys
  bound : ∀ id label k b, registry.lookup k = some b →
    owner? ⟨id, label, registry, parents, g⟩ k = some (⟨id, label, registry, parents, g⟩, b) ∧
      owner? ⟨id, label, registry, parents', g'⟩ k = some (⟨id, label, registry, parents', g'⟩, b)
  brought : ∀ id label k, registry.contains k = false →
    owner? ⟨id, label, registry, parents, g⟩ k = owner? ⟨id, label, registry, parents', g'⟩ k
  order : g.constructionOrder = g'.constructionOrder
  root : ∀ k, g.rootOrder k = g'.rootOrder k

/-- Errors that report the same, but for the order in which conflicts and the labels of one conflict come. -/
structure SameFaults (parents : List Container) (es es' : List LinkError) : Prop where
  rest : es.filter (!·.isConflict) = es'.filter (!·.isConflict)
  conflicts : (es.filterMap LinkError.contested?).Perm (es'.filterMap LinkError.contested?)
  /-- No key is reported to be in conflict twice. -/
  once : (es.filterMap LinkError.contested?).Nodup
  labels : ∀ k labels labels', .conflict k labels ∈ es → .conflict k labels' ∈ es' → labels.Perm labels'
  /-- One label stands for each of the different owners that the key has for the parents. -/
  owners : ∀ k labels, .conflict k labels ∈ es ++ es' → ∃ os : List Container, labels = os.map (·.label) ∧
    (os.map (·.id)).Nodup ∧ ∀ o, o ∈ os ↔ ∃ p ∈ parents, p.effective? k = some o

/-- Outcomes of linking a registry below these parents and below those that mean the same. -/
def SameMeaning (registry : Registry) (parents parents' : List Container) :
    Except (List LinkError) Graph → Except (List LinkError) Graph → Prop
  | .ok g, .ok g' => SameSight registry parents parents' g g'
  | .error es, .error es' => SameFaults parents es es'
  | _, _ => False

/-- What linking has before it, in some order: the own bindings, what the parents bring, and the conflicts. -/
structure Arranged (registry : Registry) (parents : List Container) (own : List Binding) (brought : Gathered)
    (conflicts : List LinkError) : Prop where
  lookup : ∀ k, (⟨own⟩ : Registry).lookup k = registry.lookup k
  perm : brought.Perm (inherited registry parents)
  quarrels : conflicts.Perm (quarrels brought)

section

variable {registry : Registry} {parents parents' : List Container} {own : List Binding} {brought brought' : Gathered}
  {conflicts conflicts' : List LinkError}

/-! ### Graphs and conflicts in any order -/

/-- The keys that some parent's binding wins. -/
def won (registry : Registry) (parents : List Container) : List Key :=
  (inheritedKeys registry parents).filter fun k => (winner (candidates parents k)).isSome

/-- The keys that parents bring and that no binding wins. -/
def unwon (registry : Registry) (parents : List Container) : List Key :=
  (inheritedKeys registry parents).filter fun k => (winner (candidates parents k)).isNone

theorem nodup_unwon (registry : Registry) (parents : List Container) : (unwon registry parents).Nodup :=
  (nodup_distinct _).filter _

namespace Arranged

theorem origin? (h : Arranged registry parents own brought conflicts) (k : Key) :
    (assemble ⟨own⟩ brought).origin? k =
      if registry.contains k then some .own
      else (winner (candidates parents k)).map fun cand => .parent cand.parent := by
  have hnodup : (brought.map Prod.fst).Nodup := (h.perm.map Prod.fst).nodup_iff.2 nodup_inherited
  rw [origin?_assemble_eq_of_perm h.lookup hnodup h.perm, origin?_assemble_inherited]

/-- Besides the own keys, those are in sight that some parent's binding wins. -/
theorem visibleKeys (h : Arranged registry parents own brought conflicts) :
    (assemble ⟨own⟩ brought).visibleKeys.Perm (own.map (·.key) ++ won registry parents) := by
  have hkeys : (inheritedOrigins (inherited registry parents)).map Prod.fst = won registry parents := by
    rw [inheritedOrigins, inherited, List.filterMap_map, List.map_filterMap, won, ← List.filterMap_eq_filter]
    refine List.filterMap_congr fun k _ => ?_
    rcases hwinner : winner (candidates parents k) with _ | cand <;> simp [hwinner, Option.guard]
  rw [Graph.visibleKeys, assemble, List.map_append, List.map_map, ← hkeys]
  exact (List.Perm.refl _).append ((h.perm.filterMap _).map _)

theorem conflicted (h : Arranged registry parents own brought conflicts) :
    (assemble ⟨own⟩ brought).conflicted.Perm (unwon registry parents) := by
  have hkeys : (contested (inherited registry parents)).map Prod.fst = unwon registry parents := by
    rw [contested_inherited, List.map_map]
    exact List.map_id _
  exact hkeys ▸ (h.perm.filter _).map _

/-- The conflicts are about the keys that no candidate wins, and name the contenders. -/
theorem conflicts_perm (h : Arranged registry parents own brought conflicts) (hrooted : ∀ p ∈ parents, p.Rooted) :
    conflicts.Perm ((unwon registry parents).map fun k => .conflict k ((contenders parents k).map (·.label))) := by
  have hquarrels : Graph.quarrels (inherited registry parents) =
      (unwon registry parents).map fun k => .conflict k ((contenders parents k).map (·.label)) := by
    rw [Graph.quarrels, contested_inherited, List.map_map]
    refine List.map_congr_left fun k _ => ?_
    rw [← owner_candidates fun p hp => owner?_eq_effective? (hrooted p hp) k, List.map_map]
    rfl
  exact hquarrels ▸ h.quarrels.trans ((h.perm.filter _).map _)

theorem isConflict (h : Arranged registry parents own brought conflicts) : ∀ e ∈ conflicts, e.isConflict = true := by
  intro e he
  obtain ⟨_, -, rfl⟩ := List.mem_map.1 (h.quarrels.mem_iff.1 he)
  rfl

/-- Each key in conflict is reported once, and nothing else as a conflict. -/
theorem contested (h : Arranged registry parents own brought conflicts) (hrooted : ∀ p ∈ parents, p.Rooted)
    {rest : List LinkError} (hrest : ∀ e ∈ rest, e.isConflict = false) :
    ((conflicts ++ rest).filterMap LinkError.contested?).Perm (unwon registry parents) := by
  have hnone : rest.filterMap LinkError.contested? = [] :=
    List.filterMap_eq_nil_iff.2 fun e he => LinkError.contested?_eq_none (hrest e he)
  have hkeys := (h.conflicts_perm hrooted).filterMap LinkError.contested?
  rw [List.filterMap_map] at hkeys
  rw [List.filterMap_append, hnone, List.append_nil]
  exact hkeys.trans (.of_eq List.filterMap_some)

theorem labels (h : Arranged registry parents own brought conflicts) (hrooted : ∀ p ∈ parents, p.Rooted)
    {rest : List LinkError} (hrest : ∀ e ∈ rest, e.isConflict = false) {k : Key} {labels : List String}
    (hconflict : .conflict k labels ∈ conflicts ++ rest) : labels = (contenders parents k).map (·.label) := by
  rcases List.mem_append.1 hconflict with hmem | hmem
  · obtain ⟨_, -, heq⟩ := List.mem_map.1 ((h.conflicts_perm hrooted).mem_iff.1 hmem)
    obtain ⟨rfl, rfl⟩ := LinkError.conflict.inj heq
    rfl
  · cases hrest _ hmem

/-- The owner of a key is the container itself if it binds the key, and the contender that prevails otherwise. -/
theorem owner? (h : Arranged registry parents own brought conflicts) (hrooted : ∀ p ∈ parents, p.Rooted) (id : Nat)
    (label : String) (k : Key) :
    Container.owner? ⟨id, label, registry, parents, assemble ⟨own⟩ brought⟩ k =
      if registry.contains k then
        (registry.lookup k).map (⟨id, label, registry, parents, assemble ⟨own⟩ brought⟩, ·)
      else (prevailing k (contenders parents k)).bind fun o => (o.registry.lookup k).map (o, ·) := by
  have horigin := h.origin? k
  rw [owner?_eq]
  split_ifs at horigin ⊢ with hown
  · simp only [horigin]
  · rw [← owner_winner fun p hp => owner?_eq_effective? (hrooted p hp) k]
    rcases hwinner : winner (candidates parents k) with _ | cand
    · simp [horigin, hwinner]
    · obtain ⟨p, b, hp, howner, -⟩ := parent_of_mem_candidates (mem_of_winner hwinner)
      simp [horigin, hwinner, hp, howner, (owner?_spec howner).2]

end Arranged

theorem inheritedKeys_perm (hsame : ∀ p, p ∈ parents ↔ p ∈ parents') :
    (inheritedKeys registry parents).Perm (inheritedKeys registry parents') := by
  have hnodup (ps : List Container) : (inheritedKeys registry ps).Nodup := nodup_distinct _
  refine (List.perm_ext_iff_of_nodup (hnodup _) (hnodup _)).2 fun k => ?_
  simp only [mem_inheritedKeys, hsame]

end

/-! ### Linking below the same parents -/

section

variable {P : Container → Prop} {registry : Registry} {parents parents' : List Container} {own : List Binding}
  {brought brought' : Gathered} {conflicts conflicts' : List LinkError}
  (hfamily : Family P) (hrooted : ∀ c, P c → c.Rooted) (hparents : ∀ p ∈ parents, P p)
  (hsame : ∀ p, p ∈ parents ↔ p ∈ parents')
include hfamily hrooted hparents hsame

theorem isSome_winner_eq (k : Key) :
    (winner (candidates parents k)).isSome = (winner (candidates parents' k)).isSome := by
  have hparents' : ∀ p ∈ parents', P p := fun p hp => hparents p ((hsame p).2 hp)
  have howner {ps : List Container} (hps : ∀ p ∈ ps, P p) :=
    owner_winner fun p hp => owner?_eq_effective? (hrooted p (hps p hp)) k
  calc
    (winner (candidates parents k)).isSome = (prevailing k (contenders parents k)).isSome := by
      rw [← howner hparents, Option.isSome_map]
    _ = (prevailing k (contenders parents' k)).isSome := by
      rw [prevailing_eq_of_perm (contenders_perm hfamily hrooted hparents hsame k)]
    _ = (winner (candidates parents' k)).isSome := by rw [← howner hparents', Option.isSome_map]

theorem won_perm : (won registry parents).Perm (won registry parents') := by
  refine ((inheritedKeys_perm hsame).filter _).trans (.of_eq (List.filter_congr fun k _ => ?_))
  exact isSome_winner_eq hfamily hrooted hparents hsame k

theorem unwon_perm : (unwon registry parents).Perm (unwon registry parents') := by
  refine ((inheritedKeys_perm hsame).filter _).trans (.of_eq (List.filter_congr fun k _ => ?_))
  rw [← Option.not_isSome, ← Option.not_isSome, isSome_winner_eq hfamily hrooted hparents hsame]

variable (h : Arranged registry parents own brought conflicts) (h' : Arranged registry parents' own brought' conflicts')
include h h'

theorem resembles_of_same_parents : (assemble ⟨own⟩ brought).Resembles (assemble ⟨own⟩ brought') where
  own k := by rw [own?_assemble, own?_assemble]
  sight k := by
    rw [contains, contains, h.origin?, h'.origin?]
    split
    · rfl
    · simp only [Option.isSome_map]
      exact isSome_winner_eq hfamily hrooted hparents hsame k
  conflicted k := by
    rw [h.conflicted.mem_iff, h'.conflicted.mem_iff]
    exact (unwon_perm hfamily hrooted hparents hsame).mem_iff
  depth := rfl
  sorted := rfl

theorem sameSight : SameSight registry parents parents' (assemble ⟨own⟩ brought) (assemble ⟨own⟩ brought') := by
  have hrooted' : ∀ p ∈ parents, p.Rooted := fun p hp => hrooted p (hparents p hp)
  have hrooted'' : ∀ p ∈ parents', p.Rooted := fun p hp => hrooted' p ((hsame p).2 hp)
  have hresembles := resembles_of_same_parents hfamily hrooted hparents hsame h h'
  constructor
  case visible =>
    have hwon : (won registry parents).Perm (won registry parents') := won_perm hfamily hrooted hparents hsame
    exact h.visibleKeys.trans ((hwon.append_left _).trans h'.visibleKeys.symm)
  case bound =>
    intro id label k b hlookup
    have hbound : registry.contains k = true := by rw [Registry.contains, hlookup, Option.isSome_some]
    rw [h.owner? hrooted', h'.owner? hrooted'', if_pos hbound, if_pos hbound, hlookup]
    exact ⟨rfl, rfl⟩
  case brought =>
    intro id label k hunbound
    rw [h.owner? hrooted', h'.owner? hrooted'', hunbound,
      prevailing_eq_of_perm (contenders_perm hfamily hrooted hparents hsame k)]
    rfl
  case order => exact hresembles.constructionOrder_eq
  case root => exact hresembles.rootOrder_eq

theorem sameFaults {rest : List LinkError} (hrest : ∀ e ∈ rest, e.isConflict = false) :
    SameFaults parents (conflicts ++ rest) (conflicts' ++ rest) := by
  have hrooted' : ∀ p ∈ parents, p.Rooted := fun p hp => hrooted p (hparents p hp)
  have hrooted'' : ∀ p ∈ parents', p.Rooted := fun p hp => hrooted' p ((hsame p).2 hp)
  have hcontenders (k : Key) := contenders_perm hfamily hrooted hparents hsame k
  constructor
  case rest =>
    have hnone {es : List LinkError} (hes : ∀ e ∈ es, e.isConflict = true) : es.filter (!·.isConflict) = [] :=
      List.filter_eq_nil_iff.2 fun e he => by simp [hes e he]
    rw [List.filter_append, List.filter_append, hnone h.isConflict, hnone h'.isConflict]
  case conflicts =>
    have hunwon : (unwon registry parents).Perm (unwon registry parents') := unwon_perm hfamily hrooted hparents hsame
    exact (h.contested hrooted' hrest).trans (hunwon.trans (h'.contested hrooted'' hrest).symm)
  case once => exact (h.contested hrooted' hrest).nodup_iff.2 (nodup_unwon registry parents)
  case labels =>
    intro k labels labels' hmem hmem'
    rw [h.labels hrooted' hrest hmem, h'.labels hrooted'' hrest hmem']
    exact (hcontenders k).map _
  case owners =>
    intro k labels hmem
    rcases List.mem_append.1 hmem with hmem | hmem
    · refine ⟨contenders parents k, h.labels hrooted' hrest hmem, nodup_contenders parents k, fun o => ?_⟩
      exact mem_contenders hfamily hrooted hparents
    · refine ⟨contenders parents' k, h'.labels hrooted'' hrest hmem, nodup_contenders parents' k, fun o => ?_⟩
      rw [← (hcontenders k).mem_iff]
      exact mem_contenders hfamily hrooted hparents

theorem eq_nil_iff_of_same_parents : conflicts = [] ↔ conflicts' = [] := by
  have hrooted' : ∀ p ∈ parents, p.Rooted := fun p hp => hrooted p (hparents p hp)
  have hrooted'' : ∀ p ∈ parents', p.Rooted := fun p hp => hrooted' p ((hsame p).2 hp)
  have hlength : conflicts.length = conflicts'.length := calc
    conflicts.length = (unwon registry parents).length := by rw [(h.conflicts_perm hrooted').length_eq, List.length_map]
    _ = (unwon registry parents').length := (unwon_perm hfamily hrooted hparents hsame).length_eq
    _ = conflicts'.length := by rw [(h'.conflicts_perm hrooted'').length_eq, List.length_map]
  rw [← List.length_eq_zero_iff, hlength, List.length_eq_zero_iff]

/-- With its own bindings in one order, linking comes to the same below the same parents. -/
theorem sameMeaning : SameMeaning registry parents parents' (outcome ⟨own⟩ brought conflicts)
    (outcome ⟨own⟩ brought' conflicts') := by
  have hproblems := (resembles_of_same_parents hfamily hrooted hparents hsame h h').problems_eq
  have hconflicts := eq_nil_iff_of_same_parents hfamily hrooted hparents hsame h h'
  by_cases hnone : conflicts = [] ∧ (assemble ⟨own⟩ brought).problems = []
  · obtain ⟨rfl, hnone⟩ := hnone
    obtain rfl := hconflicts.1 rfl
    simp only [outcome, hnone, hproblems ▸ hnone, List.append_nil]
    exact sameSight hfamily hrooted hparents hsame h h'
  · have hnone' : ¬ (conflicts' = [] ∧ (assemble ⟨own⟩ brought').problems = []) := by
      rwa [← hproblems, ← hconflicts]
    rw [outcome_eq_error hnone, outcome_eq_error hnone', ← hproblems]
    exact sameFaults hfamily hrooted hparents hsame h h' fun _ => isConflict_of_mem_problems

end

/-! ### Arrangements of what linking goes through -/

theorem arranged_link (registry : Registry) (parents : List Container) :
    Arranged registry parents registry.bindings (inherited registry parents) (conflicts (inherited registry parents)) :=
  ⟨fun _ => rfl, .refl _, Text.sortOn_perm _ _⟩

theorem Enumeration.arranged {registry : Registry} {parents : List Container} (e : Enumeration registry parents)
    (h : registry.keys.Nodup) (hrooted : ∀ p ∈ parents, p.Rooted) :
    Arranged registry parents e.own e.brought (quarrels e.brought) :=
  ⟨e.lookup_own h, e.perm_inherited h hrooted, .refl _⟩

end Graph

/-- Below containers that were built, linking comes to the same whatever order the parents are given in and however
often each is: in the order in which bindings were registered, and in any other order of all maps, if that of the own
bindings is the same both times. -/
theorem Graph.sameMeaning_of_builds {s : Store} {cs parents parents' : List Container} (h : Builds s cs)
    (hparents : ∀ p ∈ parents, p ∈ cs) (hsame : ∀ p, p ∈ parents ↔ p ∈ parents') (bs : List Binding) :
    SameMeaning (.registering bs) parents parents' (link (.registering bs) parents) (link (.registering bs) parents') ∧
      ∀ (e : Enumeration (.registering bs) parents) (e' : Enumeration (.registering bs) parents'), e.own = e'.own →
        SameMeaning (.registering bs) parents parents' e.link e'.link := by
  have hnodup := Registry.nodup_registering bs
  have hrooted : ∀ c, c ∈ cs → c.Rooted := fun c => h.rooted
  have hrooted' : ∀ p ∈ parents, p.Rooted := fun p hp => hrooted p (hparents p hp)
  constructor
  · rw [link_eq_outcome, link_eq_outcome]
    exact sameMeaning h.family hrooted hparents hsame (arranged_link _ _) (arranged_link _ _)
  · intro e e' hown
    have harranged' := e'.arranged hnodup fun p hp => hrooted' p ((hsame p).2 hp)
    rw [← hown] at harranged'
    have hmeaning := sameMeaning h.family hrooted hparents hsame (e.arranged hnodup hrooted') harranged'
    rwa [Enumeration.link, Enumeration.link, ← hown]

open Lamps in
theorem Graph.sameMeaning_house :
    link (.registering []) [attic, study, hall] = .ok house.graph ∧
    house.graph.origin? lamp = some (.parent 1) ∧
    (∃ g, link (.registering []) [study, hall, attic, study] = .ok g ∧ g.origin? lamp = some (.parent 0) ∧
      SameSight (.registering []) [attic, study, hall] [study, hall, attic, study] house.graph g) ∧
    link (.registering hanging.bindings) [barn, cellar, barn] = .error [.conflict lamp ["barn", "cellar"],
      .missing candle (some chandelier), .missing candle (some chandelier)] ∧
    SameMeaning (.registering hanging.bindings) [cellar, barn] [barn, cellar, barn]
      (link (.registering hanging.bindings) [cellar, barn])
      (link (.registering hanging.bindings) [barn, cellar, barn]) := by
  -- of any containers, since these here are too large to be compared
  have hsight (a b c p : Container) : p ∈ [a, b, c] ↔ p ∈ [b, c, a, b] := by grind
  have hfaults (a b p : Container) : p ∈ [a, b] ↔ p ∈ [b, a, b] := by grind
  obtain ⟨_, hhouse⟩ := builds_house
  obtain ⟨_, hbarn⟩ := builds_barn
  exact ⟨rfl, rfl, ⟨_, rfl, rfl, (sameMeaning_of_builds hhouse (by simp) (hsight attic study hall) []).1⟩, rfl,
    (sameMeaning_of_builds hbarn (by simp) (hfaults cellar barn) hanging.bindings).1⟩

end Injection
