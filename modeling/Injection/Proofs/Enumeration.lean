import Injection.Proofs.Registering
import Injection.Proofs.Reports

/-!
Linking in any order. What a registry binds, what parents have in sight and the candidates gathered from them are kept in
maps that are gone through in no certain order. Linking puts the own bindings in the order of their texts before it walks
over them, and numbers parents as they are given; so if texts tell the own keys apart, nothing but the order of the
conflicts that it reports depends on the order of any map, nor on the order in which bindings were registered.
-/

namespace Injection

/-! ### Keys by their texts -/

/-- Different types among the keys have different names, and no name contains the sign that comes before qualifiers. -/
structure Key.Legible (ks : List Key) : Prop where
  types : ∀ k ∈ ks, ∀ l ∈ ks, k.type.name = l.type.name → k.type = l.type
  plain : ∀ k ∈ ks, '@' ∉ k.type.name.toList

namespace Key

theorem toList_text (k : Key) :
    k.text.toList = k.type.name.toList ++ (k.qualifier.elim [] fun q => '@' :: q.toList) := by
  obtain ⟨type, _ | q⟩ := k
  · simp [text]
  · simp [text, String.toList_append]

/-- A name ends where the text does, or before the first sign that comes before qualifiers. -/
theorem takeWhile_text {k : Key} (h : '@' ∉ k.type.name.toList) :
    k.text.toList.takeWhile (· ≠ '@') = k.type.name.toList := by
  have hname : ∀ c ∈ k.type.name.toList, decide (c ≠ '@') = true := by
    intro c hc
    exact decide_eq_true fun heq => h (heq ▸ hc)
  rw [toList_text, List.takeWhile_append_of_pos hname]
  rcases k.qualifier with _ | q <;> simp

theorem Legible.of_perm {ks ls : List Key} (h : Legible ks) (hperm : ls.Perm ks) : Legible ls :=
  ⟨fun k hk l hl => h.types k (hperm.mem_iff.1 hk) l (hperm.mem_iff.1 hl), fun k hk => h.plain k (hperm.mem_iff.1 hk)⟩

theorem Legible.eq_of_text_eq {ks : List Key} (h : Legible ks) {k l : Key} (hk : k ∈ ks) (hl : l ∈ ks)
    (htext : k.text = l.text) : k = l := by
  have hname : k.type.name = l.type.name := by
    rw [← String.toList_inj, ← takeWhile_text (h.plain k hk), ← takeWhile_text (h.plain l hl), htext]
  have hrest := congrArg String.toList htext
  rw [toList_text, toList_text, hname, List.append_cancel_left_eq] at hrest
  obtain ⟨type, q⟩ := k
  obtain ⟨type', q'⟩ := l
  obtain rfl : type = type' := h.types _ hk _ hl hname
  rcases q with _ | q <;> rcases q' with _ | q'
  · rfl
  · cases hrest
  · cases hrest
  · obtain rfl : q = q' := String.toList_inj.1 (List.cons.inj hrest).2
    rfl

end Key

/-! ### Graphs with the same content -/

namespace Graph

/-- Graphs that list the same in a different order, as far as walks can tell. -/
structure Resembles (g g' : Graph) : Prop where
  own : ∀ k, g.own? k = g'.own? k
  sight : ∀ k, g.contains k = g'.contains k
  conflicted : ∀ k, k ∈ g.conflicted ↔ k ∈ g'.conflicted
  depth : g.depth = g'.depth
  sorted : g.sortedKeys = g'.sortedKeys

namespace Resembles

variable {g g' : Graph} (h : g.Resembles g')
include h

theorem follow_eq (visit : Walk → Key → Walk) (k : Key) : g.follow visit k = g'.follow visit k := by
  funext w d
  have hsight := h.sight d.key
  simp only [contains] at hsight
  unfold follow
  rcases horigin : g.origin? d.key with _ | origin <;> rcases horigin' : g'.origin? d.key with _ | origin' <;>
    simp [horigin, horigin', h.conflicted] at hsight ⊢

theorem visit_eq (depth : Nat) : g.visit depth = g'.visit depth := by
  induction depth with
  | zero => rfl
  | succ depth ih =>
      funext w k
      simp only [visit, h.own, ih, h.follow_eq]

theorem walk_eq : g.walk = g'.walk := by rw [walk, walk, h.sorted, h.depth, h.visit_eq]

theorem problems_eq : g.problems = g'.problems := by rw [problems, problems, h.walk_eq]

theorem constructionOrder_eq : g.constructionOrder = g'.constructionOrder := by
  rw [constructionOrder, constructionOrder, h.walk_eq]

theorem rootOrder_eq (k : Key) : g.rootOrder k = g'.rootOrder k := by
  rw [rootOrder, rootOrder, h.sight, h.depth, h.visit_eq]

theorem text_eq : g.text = g'.text := by simp only [text, dependenciesOf, h.own, h.sorted]

end Resembles

/-- In a list without two entries for a key, the entry of the key is found. -/
theorem lookup_eq_some_iff_mem {α : Type} {entries : List (Key × α)} (h : (entries.map Prod.fst).Nodup) {k : Key}
    {a : α} : entries.lookup k = some a ↔ (k, a) ∈ entries := by
  induction entries with
  | nil => simp
  | cons entry entries ih =>
      obtain ⟨k', a'⟩ := entry
      obtain ⟨hnew, hrest⟩ := List.nodup_cons.1 h
      by_cases heq : k = k'
      · subst heq
        have hout : (k, a) ∉ entries := fun hmem => hnew (List.mem_map.2 ⟨_, hmem, rfl⟩)
        simp [hout, eq_comm]
      · simp [List.lookup_cons, heq, beq_eq_false_iff_ne.2 heq, ih hrest]

theorem lookup_eq_of_perm {α : Type} {entries entries' : List (Key × α)} (h : (entries.map Prod.fst).Nodup)
    (hperm : entries.Perm entries') (k : Key) : entries.lookup k = entries'.lookup k := by
  have h' : (entries'.map Prod.fst).Nodup := (hperm.map Prod.fst).nodup_iff.1 h
  ext a
  rw [lookup_eq_some_iff_mem h, lookup_eq_some_iff_mem h', hperm.mem_iff]

theorem perm_of_lookup_eq {α : Type} {entries entries' : List (Key × α)} (h : (entries.map Prod.fst).Nodup)
    (h' : (entries'.map Prod.fst).Nodup) (hlookup : ∀ k, entries.lookup k = entries'.lookup k) :
    entries.Perm entries' := by
  refine (List.perm_ext_iff_of_nodup h.of_map h'.of_map).2 fun ⟨k, a⟩ => ?_
  rw [← lookup_eq_some_iff_mem h, hlookup, lookup_eq_some_iff_mem h']

/-! ### Gathering candidates in any order -/

/-- The candidates for keys that were gathered so far. -/
abbrev Gathered := List (Key × List Candidate)

/-- Takes a candidate in, unless its owner is known already. -/
def takeIn (cs : List Candidate) (cand : Candidate) : List Candidate :=
  if cs.any (·.owner.id == cand.owner.id) then cs else cs ++ [cand]

/-- Takes in a candidate for a key. -/
def Gathered.insert (k : Key) (cand : Candidate) : Gathered → Gathered
  | [] => [(k, takeIn [] cand)]
  | (k', cs) :: rest => if k' = k then (k', takeIn cs cand) :: rest else (k', cs) :: Gathered.insert k cand rest

/-- Takes in the owner that a parent has for one of its keys, unless the key is an own one. -/
def gatherKey (registry : Registry) (index : Nat) (p : Container) (brought : Gathered) (k : Key) : Gathered :=
  if registry.contains k then brought
  else
    match p.owner? k with
    | none => brought
    | some (owner, b) => brought.insert k ⟨index, owner, b.policy⟩

/-- Goes through parents, numbered from `index` on, and through the keys listed with each. -/
def gatherFrom (registry : Registry) : Nat → List (Container × List Key) → Gathered → Gathered
  | _, [], brought => brought
  | index, (p, ks) :: rest, brought =>
    gatherFrom registry (index + 1) rest (ks.foldl (gatherKey registry index p) brought)

theorem takeIn_takeIn (cs : List Candidate) (cand : Candidate) : takeIn (takeIn cs cand) cand = takeIn cs cand := by
  by_cases hknown : cs.any (·.owner.id == cand.owner.id) <;> simp [takeIn, hknown]

theorem takeIn_ne_nil (cs : List Candidate) (cand : Candidate) : takeIn cs cand ≠ [] := by
  unfold takeIn
  split
  · next hknown =>
    rintro rfl
    cases hknown
  · simp

section

variable {registry : Registry} {brought : Gathered} {k k' : Key} {cand : Candidate}

namespace Gathered

theorem lookup_insert : (brought.insert k cand).lookup k' =
    if k' = k then some (takeIn ((brought.lookup k).getD []) cand) else brought.lookup k' := by
  induction brought with
  | nil => by_cases h : k' = k <;> simp [insert, h, List.lookup_cons, beq_eq_decide]
  | cons entry rest ih =>
      obtain ⟨l, cs⟩ := entry
      rw [insert]
      by_cases hl : l = k
      · subst hl
        by_cases h : k' = l <;> simp [h, List.lookup_cons, beq_eq_decide]
      · rw [if_neg hl, List.lookup_cons, List.lookup_cons, List.lookup_cons, ih, beq_eq_false_iff_ne.2 (Ne.symm hl)]
        by_cases h : k' = l
        · simp [h, hl]
        · simp [beq_eq_false_iff_ne.2 h]

theorem mem_keys_insert {l : Key} (h : l ∈ (brought.insert k cand).map Prod.fst) :
    l = k ∨ l ∈ brought.map Prod.fst := by
  induction brought with
  | nil => exact .inl (List.mem_singleton.1 h)
  | cons entry rest ih =>
      obtain ⟨k', cs⟩ := entry
      rw [insert] at h
      split at h
      · exact .inr h
      · rcases List.mem_cons.1 h with rfl | h
        · exact .inr List.mem_cons_self
        · exact (ih h).imp_right (List.mem_cons_of_mem _)

theorem nodup_insert (h : (brought.map Prod.fst).Nodup) : ((brought.insert k cand).map Prod.fst).Nodup := by
  induction brought with
  | nil => exact List.nodup_singleton k
  | cons entry rest ih =>
      obtain ⟨k', cs⟩ := entry
      obtain ⟨hnew, hrest⟩ := List.nodup_cons.1 h
      rw [insert]
      split
      · exact h
      · next hne =>
        exact List.nodup_cons.2 ⟨fun hmem => (mem_keys_insert hmem).elim hne hnew, ih hrest⟩

end Gathered

variable {p : Container} {index : Nat}

theorem nodup_foldl_gatherKey (ks : List Key) (h : (brought.map Prod.fst).Nodup) :
    ((ks.foldl (gatherKey registry index p) brought).map Prod.fst).Nodup := by
  induction ks generalizing brought with
  | nil => exact h
  | cons l ks ih =>
      refine ih ?_
      unfold gatherKey
      split
      · exact h
      · split
        · exact h
        · exact Gathered.nodup_insert h

theorem nodup_gatherFrom (sights : List (Container × List Key)) (h : (brought.map Prod.fst).Nodup) :
    ((gatherFrom registry index sights brought).map Prod.fst).Nodup := by
  induction sights generalizing index brought with
  | nil => exact h
  | cons sight sights ih => exact ih (nodup_foldl_gatherKey sight.2 h)

/-- The candidates after those found, once a parent's owner of the key is taken in. -/
def found (p : Container) (index : Nat) (k : Key) (cs : List Candidate) : List Candidate :=
  ((p.owner? k).map fun (owner, b) => takeIn cs ⟨index, owner, b.policy⟩).getD cs

theorem found_found (cs : List Candidate) : found p index k (found p index k cs) = found p index k cs := by
  unfold found
  rcases p.owner? k with _ | ⟨owner, b⟩
  · rfl
  · exact takeIn_takeIn cs _

/-- How candidates for a key stand among what was gathered: not at all if there are none. -/
def listed (cs : List Candidate) : Option (List Candidate) := if cs = [] then none else some cs

theorem getD_listed (cs : List Candidate) : (listed cs).getD [] = cs := by
  unfold listed
  split
  · next hnil => exact hnil.symm
  · rfl

theorem lookup_gatherKey {cs : List Candidate} (hown : registry.contains k = false) (h : brought.lookup k = listed cs)
    (l : Key) :
    (gatherKey registry index p brought l).lookup k = listed (if l = k then found p index k cs else cs) := by
  unfold gatherKey
  split
  · next hl =>
    rw [if_neg (by rintro rfl; simp [hown] at hl), h]
  · by_cases hl : l = k
    · subst hl
      rw [if_pos rfl, found]
      rcases p.owner? l with _ | ⟨owner, b⟩
      · exact h
      · refine Gathered.lookup_insert.trans ?_
        rw [if_pos rfl, h, getD_listed]
        exact (if_neg (takeIn_ne_nil cs _)).symm
    · rw [if_neg hl, ← h]
      split
      · rfl
      · rw [Gathered.lookup_insert, if_neg (Ne.symm hl)]

/-- What stands for a key after going through a parent's keys, however they are ordered and repeated. -/
theorem lookup_foldl_gatherKey {cs : List Candidate} (hown : registry.contains k = false)
    (h : brought.lookup k = listed cs) (ks : List Key) :
    (ks.foldl (gatherKey registry index p) brought).lookup k = listed (if k ∈ ks then found p index k cs else cs) := by
  induction ks generalizing brought cs with
  | nil => exact h
  | cons l ks ih =>
      rw [List.foldl_cons, ih (lookup_gatherKey hown h l)]
      by_cases hl : l = k
      · by_cases hk : k ∈ ks <;> simp [hl, hk, found_found]
      · by_cases hk : k ∈ ks <;> simp [hl, Ne.symm hl, hk]

theorem candidatesFrom_cons (ps : List Container) (cs : List Candidate) :
    candidatesFrom k index (p :: ps) cs = candidatesFrom k (index + 1) ps (found p index k cs) := by
  rw [candidatesFrom, found]
  rcases p.owner? k with _ | ⟨owner, b⟩ <;> rfl

/-- A parent that has a key in sight has an owner for it among the candidates. -/
theorem candidatesFrom_ne_nil {parents : List Container} {cs : List Candidate}
    (h : cs ≠ [] ∨ ∃ p ∈ parents, (p.owner? k).isSome) : candidatesFrom k index parents cs ≠ [] := by
  induction parents generalizing index cs with
  | nil => simpa [candidatesFrom] using h
  | cons p ps ih =>
      rw [candidatesFrom_cons]
      refine ih ?_
      unfold found
      rcases howner : p.owner? k with _ | ⟨owner, b⟩
      · simpa [howner] using h
      · exact .inl (takeIn_ne_nil cs _)

/-- Gathering from parents, in any order of their keys, brings the candidates for each key. -/
theorem lookup_gatherFrom {sights : List (Container × List Key)} {cs : List Candidate}
    (hown : registry.contains k = false) (hsights : ∀ sight ∈ sights, k ∈ sight.2 ↔ (sight.1.owner? k).isSome)
    (h : brought.lookup k = listed cs) :
    (gatherFrom registry index sights brought).lookup k =
      listed (candidatesFrom k index (sights.map Prod.fst) cs) := by
  induction sights generalizing index brought cs with
  | nil => exact h
  | cons sight sights ih =>
      obtain ⟨hsight, hsights⟩ := List.forall_mem_cons.1 hsights
      have hfound : (if k ∈ sight.2 then found sight.1 index k cs else cs) = found sight.1 index k cs := by
        split
        · rfl
        · next hout =>
          rw [found, Option.not_isSome_iff_eq_none.1 (hsight.not.1 hout)]
          rfl
      rw [List.map_cons, candidatesFrom_cons]
      exact ih hsights ((lookup_foldl_gatherKey hown h sight.2).trans (by rw [hfound]))

theorem lookup_gatherFrom_own (hown : registry.contains k = true) (sights : List (Container × List Key)) :
    (gatherFrom registry index sights brought).lookup k = brought.lookup k := by
  have hkeys (p : Container) (index : Nat) (ks : List Key) (brought : Gathered) :
      (ks.foldl (gatherKey registry index p) brought).lookup k = brought.lookup k := by
    induction ks generalizing brought with
    | nil => rfl
    | cons l ks ih =>
        rw [List.foldl_cons, ih, gatherKey]
        split
        · rfl
        · next hl =>
          split
          · rfl
          · exact Gathered.lookup_insert.trans (if_neg (by rintro rfl; exact hl hown))
  induction sights generalizing index brought with
  | nil => rfl
  | cons sight sights ih => rw [gatherFrom, ih, hkeys]

end

/-! ### Linking in any order -/

variable {registry registry' : Registry} {parents : List Container}

/-- An order in which linking goes through its maps: the own bindings, the keys in sight of each parent, and the keys
that candidates were gathered for. -/
structure Enumeration (registry : Registry) (parents : List Container) where
  own : List Binding
  sights : List (Container × List Key)
  brought : Gathered
  own_perm : own.Perm registry.bindings
  parents_eq : sights.map Prod.fst = parents
  sights_perm : ∀ sight ∈ sights, sight.2.Perm sight.1.graph.visibleKeys
  brought_perm : brought.Perm (gatherFrom ⟨own⟩ 0 sights [])

/-- The conflicts in the order in which their keys come. -/
def quarrels (brought : Gathered) : List LinkError :=
  (contested brought).map fun (k, cs) => .conflict k (cs.map (·.owner.label))

/-- What linking comes to with the own bindings, what was brought and what conflicts there are. -/
def outcome (registry : Registry) (brought : Gathered) (conflicts : List LinkError) : Except (List LinkError) Graph :=
  let g := assemble registry brought
  match conflicts ++ g.problems with
  | [] => .ok g
  | es => .error es

/-- Linking when the maps are gone through in an order. -/
def Enumeration.link (e : Enumeration registry parents) : Except (List LinkError) Graph :=
  outcome ⟨e.own⟩ e.brought (quarrels e.brought)

/-- Graphs that have the same keys in sight from the same origins, and the same texts and orders. -/
structure Same (g g' : Graph) : Prop where
  visible : g.visibleKeys.Perm g'.visibleKeys
  origin : ∀ k, g.origin? k = g'.origin? k
  text : g.text = g'.text
  order : g.constructionOrder = g'.constructionOrder
  root : ∀ k, g.rootOrder k = g'.rootOrder k

end Graph

def LinkError.isConflict : LinkError → Bool
  | .conflict _ _ => true
  | _ => false

namespace Graph

variable {registry registry' : Registry} {parents : List Container}

/-- Outcomes of linking that are both graphs and the same, or both lists of errors: the same conflicts in any order, and
after them the same other errors in the same order. -/
def SameOutcome : Except (List LinkError) Graph → Except (List LinkError) Graph → Prop
  | .ok g, .ok g' => g.Same g'
  | .error es, .error es' => ∃ conflicts conflicts' rest, es = conflicts ++ rest ∧ es' = conflicts' ++ rest ∧
      conflicts.Perm conflicts' ∧ (∀ e ∈ conflicts, e.isConflict = true) ∧ ∀ e ∈ rest, e.isConflict = false
  | _, _ => False

theorem link_eq_outcome (registry : Registry) (parents : List Container) :
    link registry parents =
      outcome registry (inherited registry parents) (conflicts (inherited registry parents)) := rfl

theorem keys_inherited : (inherited registry parents).map Prod.fst = inheritedKeys registry parents := by
  simp [inherited, Function.comp_def]

theorem nodup_inherited : ((inherited registry parents).map Prod.fst).Nodup := by
  rw [keys_inherited]
  exact nodup_distinct _

theorem inherited_congr (h : ∀ k, registry.lookup k = registry'.lookup k) :
    inherited registry parents = inherited registry' parents := by
  simp only [inherited, inheritedKeys, Registry.contains_congr h]

theorem lookup_inherited_listed (hrooted : ∀ p ∈ parents, p.Rooted) (k : Key) :
    (inherited registry parents).lookup k = if registry.contains k then none else listed (candidates parents k) := by
  have hlookup := lookup_filterMap k (fun k => some (candidates parents k)) (inheritedKeys registry parents)
  simp only [Option.map_some, List.filterMap_eq_map'] at hlookup
  refine hlookup.trans ?_
  by_cases hbrought : ∃ p ∈ parents, p.graph.contains k = true
  · have hcandidates : candidates parents k ≠ [] := by
      obtain ⟨p, hp, hsight⟩ := hbrought
      obtain ⟨o, b, howner⟩ := (hrooted p hp).linked.owner?_isSome hsight
      exact candidatesFrom_ne_nil (.inr ⟨p, hp, by rw [howner]; rfl⟩)
    rcases hown : registry.contains k <;> simp [mem_inheritedKeys, hown, hbrought, listed, hcandidates]
  · have hnot : k ∉ inheritedKeys registry parents := fun hmem => hbrought (mem_inheritedKeys.1 hmem).2
    rw [if_neg hnot, candidates_eq_nil hbrought]
    split <;> rfl

namespace Enumeration

variable (e : Enumeration registry parents)

theorem lookup_own (h : registry.keys.Nodup) (k : Key) : (⟨e.own⟩ : Registry).lookup k = registry.lookup k :=
  Registry.lookup_eq_of_perm h e.own_perm k

/-- In whatever order the maps are gone through, the parents bring the same. -/
theorem perm_inherited (h : registry.keys.Nodup) (hrooted : ∀ p ∈ parents, p.Rooted) :
    e.brought.Perm (inherited registry parents) := by
  refine e.brought_perm.trans (perm_of_lookup_eq (nodup_gatherFrom e.sights List.nodup_nil) nodup_inherited fun k => ?_)
  rw [lookup_inherited_listed hrooted]
  have hcontains := Registry.contains_congr (e.lookup_own h) k
  split
  · next hown => exact lookup_gatherFrom_own (hcontains.trans hown) e.sights
  · next hown =>
    rw [Bool.not_eq_true] at hown
    refine (lookup_gatherFrom (hcontains.trans hown) (fun sight hsight => ?_) rfl).trans (by rw [e.parents_eq]; rfl)
    have hp : sight.1 ∈ parents := e.parents_eq ▸ List.mem_map_of_mem hsight
    rw [(e.sights_perm sight hsight).mem_iff, mem_visibleKeys, (hrooted _ hp).contains_iff,
      ← Container.owner?_eq_effective? (hrooted _ hp), Option.isSome_map]

theorem nodup_brought (h : registry.keys.Nodup) (hrooted : ∀ p ∈ parents, p.Rooted) :
    (e.brought.map Prod.fst).Nodup :=
  ((e.perm_inherited h hrooted).map Prod.fst).nodup_iff.2 nodup_inherited

theorem legible (h : Key.Legible registry.keys) : Key.Legible (⟨e.own⟩ : Registry).keys :=
  h.of_perm (e.own_perm.map _)

end Enumeration

section

variable {brought brought' : Gathered}

theorem keys_inheritedOrigins (brought : Gathered) :
    ((inheritedOrigins brought).map Prod.fst).Sublist (brought.map Prod.fst) := by
  induction brought with
  | nil => exact .slnil
  | cons entry rest ih =>
      obtain ⟨k, cs⟩ := entry
      rw [inheritedOrigins, List.filterMap_cons]
      rcases hwinner : winner cs with _ | cand <;> simp only [hwinner, Option.map_none, Option.map_some]
      · exact ih.cons k
      · exact ih.cons_cons k

/-- Of the same that parents bring, in whatever order, the same parents' bindings win. -/
theorem origin?_assemble_eq_of_perm (hlookup : ∀ k, registry.lookup k = registry'.lookup k)
    (hnodup : (brought.map Prod.fst).Nodup) (hbrought : brought.Perm brought') (k : Key) :
    (assemble registry brought).origin? k = (assemble registry' brought').origin? k := by
  rw [origin?_assemble, origin?_assemble, hlookup,
    lookup_eq_of_perm (hnodup.sublist (keys_inheritedOrigins brought)) (hbrought.filterMap _)]
  rfl

/-- Assembled graphs of registries that bind the same, and of the same that parents bring. -/
theorem resembles_assemble (hlookup : ∀ k, registry.lookup k = registry'.lookup k)
    (hperm : registry.bindings.Perm registry'.bindings) (hlegible : Key.Legible registry.keys)
    (hnodup : (brought.map Prod.fst).Nodup) (hbrought : brought.Perm brought') :
    (assemble registry brought).Resembles (assemble registry' brought') where
  own k := by rw [own?_assemble, own?_assemble, hlookup]
  sight k := by rw [contains, contains, origin?_assemble_eq_of_perm hlookup hnodup hbrought]
  conflicted k := ((hbrought.filter _).map Prod.fst).mem_iff
  depth := by simp [depth, assemble, hperm.length_eq]
  sorted := by
    have hkeys (r : Registry) (brought : Gathered) : (assemble r brought).entries.map (·.key) = r.keys := by
      simp [assemble, Registry.keys, Function.comp_def]
    rw [sortedKeys, sortedKeys, hkeys, hkeys]
    exact Text.sortOn_eq_of_perm (hperm.map _) fun k hk l hl => hlegible.eq_of_text_eq hk hl

theorem isConflict_of_mem_problems {g : Graph} {e : LinkError} (he : e ∈ g.problems) : e.isConflict = false := by
  rcases e with _ | _ | ⟨k, labels⟩
  · rfl
  · rfl
  · have := count_problems_eq_zero (g := g) (e := .conflict k labels) rfl (by simp)
    exact absurd he (List.count_eq_zero.1 this)

theorem outcome_eq_error {conflicts : List LinkError}
    (h : ¬ (conflicts = [] ∧ (assemble registry brought).problems = [])) :
    outcome registry brought conflicts = .error (conflicts ++ (assemble registry brought).problems) := by
  unfold outcome
  dsimp only
  split
  · next hnil => exact absurd (List.append_eq_nil_iff.1 hnil) h
  · rfl

/-- Linking comes to the same with registries that bind the same, and with the same that parents bring. -/
theorem sameOutcome (hlookup : ∀ k, registry.lookup k = registry'.lookup k)
    (hperm : registry.bindings.Perm registry'.bindings) (hlegible : Key.Legible registry.keys)
    (hnodup : (brought.map Prod.fst).Nodup) (hbrought : brought.Perm brought') {conflicts conflicts' : List LinkError}
    (hconflicts : conflicts.Perm (quarrels brought)) (hconflicts' : conflicts'.Perm (quarrels brought')) :
    SameOutcome (outcome registry brought conflicts) (outcome registry' brought' conflicts') := by
  have hresembles := resembles_assemble hlookup hperm hlegible hnodup hbrought
  have hquarrels : conflicts.Perm conflicts' :=
    hconflicts.trans (((hbrought.filter _).map _).trans hconflicts'.symm)
  have hquarrel : ∀ e ∈ conflicts, e.isConflict = true := by
    intro e he
    obtain ⟨_, -, rfl⟩ := List.mem_map.1 (hconflicts.mem_iff.1 he)
    rfl
  by_cases hnone : conflicts = [] ∧ (assemble registry brought).problems = []
  · obtain ⟨rfl, hproblems⟩ := hnone
    have hproblems' := hresembles.problems_eq ▸ hproblems
    obtain rfl := List.nil_perm.1 hquarrels
    simp only [outcome, hproblems, hproblems', List.append_nil]
    exact ⟨((hperm.map _).append (hbrought.filterMap _)).map _, origin?_assemble_eq_of_perm hlookup hnodup hbrought,
      hresembles.text_eq, hresembles.constructionOrder_eq, hresembles.rootOrder_eq⟩
  · have hnone' : ¬ (conflicts' = [] ∧ (assemble registry' brought').problems = []) := by
      rw [← hresembles.problems_eq]
      rintro ⟨rfl, hproblems⟩
      exact hnone ⟨List.perm_nil.1 hquarrels, hproblems⟩
    rw [outcome_eq_error hnone, outcome_eq_error hnone', ← hresembles.problems_eq]
    exact ⟨conflicts, conflicts', _, rfl, rfl, hquarrels, hquarrel, fun _ => isConflict_of_mem_problems⟩

end

end Graph

/-- What a registry holds once bindings were registered one after the other, each as its policy says. -/
def Registry.registering (bs : List Binding) : Registry := (empty.registerAll bs).1

theorem Registry.nodup_registering (bs : List Binding) : (registering bs).keys.Nodup :=
  nodup_registerAll bs List.nodup_nil

/-- However registries with the same content came about, and in whatever order linking goes through its maps, it comes to
the same below the same parents. -/
theorem Graph.sameOutcome_of_content {bs bs' : List Binding} {parents : List Container}
    (hcontent : ∀ k, (Registry.registering bs).lookup k = (Registry.registering bs').lookup k)
    (hparents : ∀ p ∈ parents, p.Rooted) (hlegible : Key.Legible (Registry.registering bs).keys) :
    SameOutcome (link (Registry.registering bs) parents) (link (Registry.registering bs') parents) ∧
      ∀ (e : Enumeration (Registry.registering bs) parents) (e' : Enumeration (Registry.registering bs') parents),
        SameOutcome e.link e'.link ∧ SameOutcome e.link (link (Registry.registering bs) parents) := by
  have hnodup := Registry.nodup_registering bs
  have hnodup' := Registry.nodup_registering bs'
  have hperm := Registry.perm_of_lookup_eq hnodup hnodup' hcontent
  refine ⟨?link, fun e e' => ⟨?both, ?one⟩⟩
  case link =>
    rw [link_eq_outcome, link_eq_outcome]
    exact sameOutcome hcontent hperm hlegible nodup_inherited (.of_eq (inherited_congr hcontent))
      (Text.sortOn_perm _ _) (Text.sortOn_perm _ _)
  case both =>
    have hbrought : e.brought.Perm e'.brought := by
      refine (e.perm_inherited hnodup hparents).trans ?_
      rw [inherited_congr hcontent]
      exact (e'.perm_inherited hnodup' hparents).symm
    refine sameOutcome (fun k => ?_) (e.own_perm.trans (hperm.trans e'.own_perm.symm)) (e.legible hlegible)
      (e.nodup_brought hnodup hparents) hbrought (.refl _) (.refl _)
    rw [e.lookup_own hnodup, e'.lookup_own hnodup', hcontent]
  case one =>
    rw [link_eq_outcome]
    exact sameOutcome (e.lookup_own hnodup) e.own_perm (e.legible hlegible) (e.nodup_brought hnodup hparents)
      (e.perm_inherited hnodup hparents) (.refl _) (Text.sortOn_perm _ _)

namespace Lamps

def shade : Key := .ofType ⟨3, "Shade", .number⟩

def shadeAs (policy : Policy) : Binding := ⟨shade, .given (.made shade.type 0 (.given "")), [], policy, true⟩

/-- A shade is put up before what hangs from the ceiling. -/
def before : List Binding := shadeAs .override :: hanging.bindings

/-- It is put up after that, in the place of another one. -/
def afterwards : List Binding := hanging.bindings ++ [shadeAs .fail, shadeAs .override]

theorem lookup_before (k : Key) : (Registry.registering before).lookup k = (Registry.registering afterwards).lookup k :=
  have hperm : (Registry.registering before).bindings.Perm (Registry.registering afterwards).bindings := .swap _ _ _
  Registry.lookup_eq_of_perm (Registry.nodup_registering afterwards) hperm k

theorem rooted_barn : ∀ p ∈ [cellar, barn], p.Rooted := by
  obtain ⟨_, hbuilds⟩ := builds_barn
  exact fun p hp => hbuilds.rooted (by simpa [or_comm] using hp)

end Lamps

open Lamps in
theorem Graph.sameOutcome_hanging :
    link (.registering before) [cellar, barn] = .error [.conflict lamp ["cellar", "barn"],
      .missing candle (some chandelier), .missing candle (some chandelier)] ∧
    SameOutcome (link (.registering before) [cellar, barn]) (link (.registering afterwards) [cellar, barn]) :=
  ⟨rfl, (sameOutcome_of_content lookup_before rooted_barn ⟨by decide, by decide⟩).1⟩

end Injection
